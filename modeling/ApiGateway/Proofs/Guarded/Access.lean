import ApiGateway.Error
import ApiGateway.Json.Basic
import ApiGateway.Proofs.Outcome
import ApiGateway.Proofs.Text.Slice

/-!
# Guarded runs

A guarded run reads and changes lists by position, cuts texts at byte offsets and looks up keys
that have to be there. Each of these accesses is checked first, and the run ends with a fault where
one has no target. A guarded run therefore has one end more than a plain one: a result, an error,
or a fault.

## Main definitions

* `Guarded.Access`, `Guarded.Halt`: the accesses, and how a guarded run ends without a result.
* `Guarded.entry`, `Guarded.replaceAt`, `Guarded.insertAt`, `Guarded.removeAt`, `Guarded.lastIndex`,
  `Guarded.cut`, `Guarded.valueOf`: the accesses themselves.
* `Guarded.lift`: a plain run as a guarded one.
* `Guarded.Follows`: a guarded run that ends as a plain one does, with a related result.

## Main results

* `Guarded.Follows.bind`, `Guarded.Follows.foldlM`: guarded runs that follow plain ones step by step
  follow them as a whole.
* `Guarded.Follows.eq_lift`: a run that follows a plain one with the same result.
-/
namespace ApiGateway.Guarded

/-- What a run can miss: a position in a list of some length, a byte offset that is no boundary of
a text, or a key of an object. -/
inductive Access where
  | position (index length : Nat)
  | offset (offset : Nat) (text : List Char)
  | key (key : String)

/-- How a guarded run ends without a result. -/
inductive Halt where
  | fault (access : Access)
  | error (error : Error)

section Accesses
variable {α : Type}

/-- The entry at a position. -/
def entry (items : List α) (index : Nat) : Except Halt α :=
  match items[index]? with
  | some a => .ok a
  | none => .error (.fault (.position index items.length))

/-- A list with another entry at a position. -/
def replaceAt (items : List α) (index : Nat) (a : α) : Except Halt (List α) :=
  if index < items.length then .ok (items.set index a)
  else .error (.fault (.position index items.length))

/-- A list with an entry more, before the one at a position or at the end. -/
def insertAt (items : List α) (index : Nat) (a : α) : Except Halt (List α) :=
  if index ≤ items.length then .ok (items.insertIdx index a)
  else .error (.fault (.position index items.length))

/-- A list without the entry at a position. -/
def removeAt (items : List α) (index : Nat) : Except Halt (List α) :=
  if index < items.length then .ok (items.eraseIdx index)
  else .error (.fault (.position index items.length))

/-- The position of the last entry. -/
def lastIndex (items : List α) : Except Halt Nat :=
  match items.length with
  | 0 => .error (.fault (.position 0 0))
  | n + 1 => .ok n

/-- The two parts of a text at a byte offset. -/
def cut (offset : Nat) (text : List Char) : Except Halt (List Char × List Char) :=
  match Text.cut? offset text with
  | some parts => .ok parts
  | none => .error (.fault (.offset offset text))

/-- The value of a listed member, for which its key has to be found. An object has one value for a
key, so it is the value listed. -/
def valueOf (members : Members) (member : String × Json) : Except Halt Json :=
  if members.has member.1 then .ok member.2 else .error (.fault (.key member.1))

theorem entry_of_getElem? {items : List α} {index : ℕ} {a : α} (h : items[index]? = some a) :
    entry items index = .ok a := by
  rw [entry, h]

@[simp] theorem entry_cons_zero (a : α) (items : List α) : entry (a :: items) 0 = .ok a := rfl

theorem replaceAt_of_lt {items : List α} {index : ℕ} (h : index < items.length) (a : α) :
    replaceAt items index a = .ok (items.set index a) :=
  if_pos h

theorem insertAt_of_le {items : List α} {index : ℕ} (h : index ≤ items.length) (a : α) :
    insertAt items index a = .ok (items.insertIdx index a) :=
  if_pos h

@[simp] theorem removeAt_cons_zero (a : α) (items : List α) :
    removeAt (a :: items) 0 = .ok items := rfl

@[simp] theorem lastIndex_append_singleton (items : List α) (a : α) :
    lastIndex (items ++ [a]) = .ok items.length := by
  rw [lastIndex, List.length_append]
  rfl

theorem cut_of_cut? {offset : ℕ} {text : List Char} {parts : List Char × List Char}
    (h : Text.cut? offset text = some parts) : cut offset text = .ok parts := by
  rw [cut, h]

/-- The key of a member is found. -/
theorem valueOf_of_mem {members : Members} {member : String × Json} (h : member ∈ members) :
    valueOf members member = .ok member.2 := by
  refine if_pos ?_
  induction members with
  | nil => cases h
  | cons m rest ih =>
    rw [Members.has, Members.get?_cons]
    split
    · rfl
    · rename_i hne
      rcases List.mem_cons.1 h with rfl | h
      · exact absurd rfl hne
      · exact ih h

end Accesses

section Lift
variable {α β σ : Type}

/-- A plain run as a guarded one: it has no faults. -/
def lift (x : Except Error α) : Except Halt α := x.mapError .error

@[simp] theorem lift_ok (a : α) : lift (.ok a) = .ok a := rfl

@[simp] theorem lift_pure (a : α) : lift (pure a) = pure a := rfl

@[simp] theorem lift_error (e : Error) : lift (.error e : Except Error α) = .error (.error e) := rfl

theorem lift_bind (x : Except Error α) (f : α → Except Error β) :
    lift (x >>= f) = lift x >>= fun a => lift (f a) := by
  cases x <;> rfl

/-- Plain runs have no faults. -/
theorem lift_ne_fault (x : Except Error α) (access : Access) :
    lift x ≠ .error (.fault access) := by
  cases x <;> simp

/-- A guarded step along a list is the plain one when it is on every item. -/
theorem mapM_eq_lift {guarded : α → Except Halt β} {plain : α → Except Error β} {items : List α}
    (h : ∀ a ∈ items, guarded a = lift (plain a)) :
    items.mapM guarded = lift (items.mapM plain) := by
  induction items with
  | nil => rfl
  | cons a rest ih =>
    rw [List.mapM_cons, List.mapM_cons, lift_bind, h a List.mem_cons_self,
      ih fun b hb => h b (List.mem_cons_of_mem _ hb)]
    simp only [lift_bind, lift_pure]

end Lift

section Follows
variable {α β α' β' σ τ : Type}

/-- A guarded run that ends as a plain one does: with a related result, or with the same error. -/
inductive Follows (R : α → β → Prop) : Except Halt α → Except Error β → Prop
  | ok {a : α} {b : β} (related : R a b) : Follows R (.ok a) (.ok b)
  | error (e : Error) : Follows R (.error (.error e)) (.error e)

namespace Follows
variable {R : α → β → Prop} {S : α' → β' → Prop}

/-- A plain run is followed by itself. -/
theorem of_lift (x : Except Error α) : Follows (· = ·) (lift x) x := by
  cases x with
  | error e => exact error e
  | ok a => exact ok rfl

/-- A run that follows a plain one with the same result is the plain one. -/
theorem eq_lift {x : Except Halt α} {y : Except Error α} (h : Follows (· = ·) x y) :
    x = lift y := by
  cases h with
  | ok related => rw [related, lift_ok]
  | error e => rfl

theorem mono {R' : α → β → Prop} {x : Except Halt α} {y : Except Error β} (h : Follows R x y)
    (himp : ∀ a b, R a b → R' a b) : Follows R' x y := by
  cases h with
  | ok related => exact ok (himp _ _ related)
  | error e => exact error e

/-- What follows two related steps is related. -/
theorem bind {x : Except Halt α} {y : Except Error β} {f : α → Except Halt α'}
    {g : β → Except Error β'} (h : Follows R x y) (hnext : ∀ a b, R a b → Follows S (f a) (g b)) :
    Follows S (x >>= f) (y >>= g) := by
  cases h with
  | ok related => exact hnext _ _ related
  | error e => exact error e

/-- What follows a plain step is related when it is for each of its results. -/
theorem bind_lift {y : Except Error β} {f : β → Except Halt α'} {g : β → Except Error β'}
    (hnext : ∀ b, Follows S (f b) (g b)) : Follows S (lift y >>= f) (y >>= g) :=
  (of_lift y).bind fun a _ hab => hab ▸ hnext a

/-- Steps that keep states related keep them so along a list. -/
theorem foldlM {R : σ → τ → Prop} {guarded : σ → α → Except Halt σ} {plain : τ → α → Except Error τ}
    {items : List α} {s : σ} {t : τ} (hst : R s t)
    (hstep : ∀ a ∈ items, ∀ s t, R s t → Follows R (guarded s a) (plain t a)) :
    Follows R (items.foldlM guarded s) (items.foldlM plain t) := by
  induction items generalizing s t with
  | nil => exact ok hst
  | cons a rest ih =>
    rw [List.foldlM_cons, List.foldlM_cons]
    exact (hstep a List.mem_cons_self s t hst).bind fun s' t' hst' =>
      ih hst' fun b hb => hstep b (List.mem_cons_of_mem _ hb)

/-- The same with plain steps that cannot fail. -/
theorem foldl {R : σ → τ → Prop} {guarded : σ → α → Except Halt σ} {plain : τ → α → τ}
    {items : List α} {s : σ} {t : τ} (hst : R s t)
    (hstep : ∀ a ∈ items, ∀ s t, R s t → Follows R (guarded s a) (.ok (plain t a))) :
    Follows R (items.foldlM guarded s) (.ok (items.foldl plain t)) := by
  have h : items.foldlM (fun t a => pure (plain t a)) t =
      (Except.ok (items.foldl plain t) : Except Error τ) := List.foldlM_pure
  exact h ▸ foldlM hst hstep

end Follows

end Follows

end ApiGateway.Guarded
