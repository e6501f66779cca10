import ApiGateway.Document.Basic

/-!
# Chains of references

A reference may lead to a value that is a reference again. Resolving follows such a chain to its end,
looking at a bounded number of values: what it says depends on how far the chain goes, not on where
in the document its values stand.

A value has to be looked at to see that the chain ends there, so of the hops that are allowed the
last one is refused even when it leads to the end.

## Main definitions

* `Document.Chain`: the values that a number of references leads to.

## Main results

* `Document.Chain.resolveWithin_eq`: a chain uses up as many hops as it has references.
* `Document.chain_cases`: a chain ends within the hops, or goes on for all of them.
* `Document.resolve_of_chain`: what resolving a value gives, by the chain that starts from it.
-/
namespace ApiGateway.Document

/-- Following `n` references, each of them the value that the one before leads to. -/
inductive Chain (doc : Document) : (n : Nat) → (value target : Json) → Prop where
  | here (value : Json) : doc.Chain 0 value value
  | follow {n : Nat} {value next target : Json} {reference : String} :
      value.reference? = some reference → doc.lookup? reference = some next →
      doc.Chain n next target → doc.Chain (n + 1) value target

variable {doc : Document} {m n : Nat} {value next target : Json} {reference : String}

namespace Chain

theorem trans (h : doc.Chain m value next) (h' : doc.Chain n next target) :
    doc.Chain (m + n) value target := by
  induction h with
  | here => simpa using h'
  | follow href hlookup _ ih =>
    rw [Nat.add_right_comm]
    exact .follow href hlookup (ih h')

/-- The values on the way of a chain are the targets of shorter chains. -/
theorem exists_of_le (h : doc.Chain n value target) (hle : m ≤ n) :
    ∃ next, doc.Chain m value next := by
  induction h generalizing m with
  | here value =>
    obtain rfl : m = 0 := by omega
    exact ⟨value, .here value⟩
  | @follow n value next target reference href hlookup _ ih =>
    cases m with
    | zero => exact ⟨value, .here value⟩
    | succ m =>
      obtain ⟨stop, hstop⟩ := ih (m := m) (by omega)
      exact ⟨stop, .follow href hlookup hstop⟩

/-- A cycle is followed as often as one likes. -/
theorem cycle_mul (h : doc.Chain n value value) (k : Nat) : doc.Chain (k * n) value value := by
  induction k with
  | zero => simpa using Chain.here value
  | succ k ih =>
    rw [Nat.succ_mul]
    exact ih.trans h

/-- A chain uses up as many hops as it has references. -/
theorem resolveWithin_eq (h : doc.Chain n value target) (hops : Nat) :
    doc.resolveWithin (n + hops) value = doc.resolveWithin hops target := by
  induction h with
  | here => simp
  | @follow n value next target reference href hlookup _ ih =>
    rw [Nat.add_right_comm, resolveWithin, href]
    simp only [hlookup, ih]

end Chain

/-- A chain ends within the hops, at a value that is no reference or at a reference that leads
nowhere, or it goes on for all of them. -/
theorem chain_cases (doc : Document) (hops : Nat) (value : Json) :
    (∃ n < hops, ∃ target, doc.Chain n value target ∧ target.reference? = none) ∨
    (∃ n < hops, ∃ target reference, doc.Chain n value target ∧
      target.reference? = some reference ∧ doc.lookup? reference = none) ∨
    ∃ target, doc.Chain hops value target := by
  induction hops with
  | zero => exact .inr (.inr ⟨value, .here value⟩)
  | succ hops ih =>
    obtain ⟨n, hn, hends⟩ | ⟨n, hn, hdangles⟩ | ⟨target, hchain⟩ := ih
    · exact .inl ⟨n, by omega, hends⟩
    · exact .inr (.inl ⟨n, by omega, hdangles⟩)
    · -- one more hop, from where the chain has come to
      cases href : target.reference? with
      | none => exact .inl ⟨hops, by omega, target, hchain, href⟩
      | some reference =>
        cases hlookup : doc.lookup? reference with
        | none => exact .inr (.inl ⟨hops, by omega, target, reference, hchain, href, hlookup⟩)
        | some next => exact .inr (.inr ⟨next, hchain.trans (.follow href hlookup (.here next))⟩)

/-- A chain that ends before the hops do is followed to its end. -/
theorem resolveWithin_of_ends {hops : Nat} (h : doc.Chain n value target)
    (hends : target.reference? = none) (hn : n < hops) :
    doc.resolveWithin hops value = .ok target := by
  obtain ⟨rest, rfl⟩ : ∃ rest, hops = n + (rest + 1) := ⟨hops - n - 1, by omega⟩
  rw [h.resolveWithin_eq, resolveWithin, hends]

/-- A reference on the way that leads nowhere is named. -/
theorem resolveWithin_of_dangles {hops : Nat} (h : doc.Chain n value target)
    (href : target.reference? = some reference) (hlookup : doc.lookup? reference = none)
    (hn : n < hops) : doc.resolveWithin hops value = .error (.unresolved reference) := by
  obtain ⟨rest, rfl⟩ : ∃ rest, hops = n + (rest + 1) := ⟨hops - n - 1, by omega⟩
  rw [h.resolveWithin_eq, resolveWithin, href]
  simp only [hlookup]

/-- A chain that goes on for all hops is given up. -/
theorem resolveWithin_of_long {hops : Nat} (h : doc.Chain n value target) (hn : hops ≤ n) :
    doc.resolveWithin hops value = .error (.chainTooLong maxHops) := by
  obtain ⟨stop, hstop⟩ := h.exists_of_le hn
  have hrun := hstop.resolveWithin_eq 0
  rwa [Nat.add_zero, resolveWithin] at hrun

/-- A value that is found stands at the end of a chain within the hops. -/
theorem exists_chain_of_resolveWithin {hops : Nat}
    (h : doc.resolveWithin hops value = .ok target) :
    ∃ n < hops, doc.Chain n value target ∧ target.reference? = none := by
  obtain ⟨n, hn, stop, hchain, hends⟩ | ⟨n, hn, stop, reference, hchain, href, hlookup⟩ |
    ⟨stop, hchain⟩ := doc.chain_cases hops value
  · obtain rfl := Except.ok.inj ((resolveWithin_of_ends hchain hends hn).symm.trans h)
    exact ⟨n, hn, hchain, hends⟩
  · cases (resolveWithin_of_dangles hchain href hlookup hn).symm.trans h
  · cases (resolveWithin_of_long hchain (Nat.le_refl hops)).symm.trans h

/-- What resolving a value gives. A chain of fewer references than there are hops is followed to its
end; a reference that leads nowhere, among the first ones that the hops allow, is an error with its
name; and a chain of as many references as there are hops, or more, is given up, wherever it ends,
and also when it comes back to a value on the way. Every value falls under one of these cases. -/
theorem resolve_of_chain (doc : Document) (value : Json) :
    (∀ n target, doc.Chain n value target → target.reference? = none → n < maxHops →
      doc.resolve value = .ok target) ∧
    (∀ n target reference, doc.Chain n value target → target.reference? = some reference →
      doc.lookup? reference = none → n < maxHops →
      doc.resolve value = .error (.unresolved reference)) ∧
    (∀ n target, doc.Chain n value target → maxHops ≤ n →
      doc.resolve value = .error (.chainTooLong maxHops)) ∧
    (∀ n m target, doc.Chain n value target → doc.Chain (m + 1) target target →
      doc.resolve value = .error (.chainTooLong maxHops)) ∧
    ((∃ n < maxHops, ∃ target, doc.Chain n value target ∧ target.reference? = none) ∨
      (∃ n < maxHops, ∃ target reference, doc.Chain n value target ∧
        target.reference? = some reference ∧ doc.lookup? reference = none) ∨
      ∃ target, doc.Chain maxHops value target) := by
  refine ⟨?ends, ?dangles, ?long, ?cyclic, doc.chain_cases maxHops value⟩
  case ends =>
    intro n target h hends hn
    exact resolveWithin_of_ends h hends hn
  case dangles =>
    intro n target reference h href hlookup hn
    exact resolveWithin_of_dangles h href hlookup hn
  case long =>
    intro n target h hn
    exact resolveWithin_of_long h hn
  case cyclic =>
    intro n m target h hcycle
    have hround := h.trans (hcycle.cycle_mul maxHops)
    have hle : maxHops ≤ n + maxHops * (m + 1) := by
      rw [Nat.mul_succ]
      omega
    exact resolveWithin_of_long hround hle

/-- A document in which thirty-one values refer to the next one, and the thirty-second does not. -/
def relayMembers : Members :=
  [("openapi", .str "3.0.0"), ("paths", .obj []),
    ("x-relay", .arr ((List.range 31).map (fun i =>
      .obj [("$ref", .str ("#/x-relay/" ++ toString (i + 1)))]) ++ [.str "end"]))]

/-- The longest chain is refused: one of exactly as many references as there are hops, which ends at
a value that is no reference. -/
theorem exists_refused_chain :
    (Document.mk relayMembers "3.0.0").Chain maxHops
      (.obj [("$ref", .str "#/x-relay/0")]) (.str "end") ∧
    (Json.str "end").reference? = none ∧
    (Document.mk relayMembers "3.0.0").resolve (.obj [("$ref", .str "#/x-relay/0")]) =
      .error (.chainTooLong maxHops) := by
  have hrefused : (Document.mk relayMembers "3.0.0").resolve
      (.obj [("$ref", .str "#/x-relay/0")]) = .error (.chainTooLong maxHops) := by
    rfl
  -- with one hop more the end is found, so the chain has as many references as there are hops
  have hfound : (Document.mk relayMembers "3.0.0").resolveWithin (maxHops + 1)
      (.obj [("$ref", .str "#/x-relay/0")]) = .ok (.str "end") := by
    rfl
  obtain ⟨n, hn, hchain, hends⟩ := exists_chain_of_resolveWithin hfound
  have hlong : ¬ n < maxHops := by
    intro hshort
    cases (resolveWithin_of_ends hchain hends hshort).symm.trans hrefused
  obtain rfl : n = maxHops := by omega
  exact ⟨hchain, hends, hrefused⟩

end ApiGateway.Document
