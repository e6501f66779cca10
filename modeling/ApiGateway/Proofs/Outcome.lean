import Mathlib.Data.List.Forall2

/-!
# Results of steps

How results of steps are taken apart, and how a step is repeated along a list.

## Main results

* `bind_eq_ok_iff`, `exists_error_bind_iff`: when a step and what follows it succeed and fail.
* `exists_error_foldlM_iff`, `exists_error_mapM_iff`: when a step along a list fails.
* `map_bind_congr`, `map_mapM_congr`, `map_foldlM_congr`: steps that look alike have results that
  look alike.
* `foldlM_flatMap`: a step along a list of parts.
* `mapM_congr`, `foldlM_congr`: steps that agree on the items of a list.
* `mapM_filter`: a step along some of the items of a list.
* `forall₂_of_mapM_eq_ok`: results of steps that succeeded correspond to the items.
* `Carries.bind`, `Carries.mapM`: steps of which the second succeeds when the first does.
-/
namespace ApiGateway

section Outcome
variable {ε α β : Type}

@[simp] theorem ok_bind (a : α) (f : α → Except ε β) : (Except.ok a >>= f) = f a := rfl

@[simp] theorem error_bind (e : ε) (f : α → Except ε β) : (Except.error e >>= f) = .error e := rfl

@[simp] theorem map_ok (f : α → β) (a : α) : (Except.ok a : Except ε α).map f = .ok (f a) := rfl

@[simp] theorem map_error (f : α → β) (e : ε) : (Except.error e).map f = .error e := rfl

/-- A step and what follows it succeed when both do. -/
theorem bind_eq_ok_iff {x : Except ε α} {f : α → Except ε β} {b : β} :
    (x >>= f) = .ok b ↔ ∃ a, x = .ok a ∧ f a = .ok b := by
  cases x with
  | error e => simp
  | ok a => simp

/-- A step and what follows it fail when one of them does. -/
theorem exists_error_bind_iff {x : Except ε α} {f : α → Except ε β} :
    (∃ e, (x >>= f) = .error e) ↔ (∃ e, x = .error e) ∨ ∃ a, x = .ok a ∧ ∃ e, f a = .error e := by
  cases x with
  | error e => simp
  | ok a => simp

/-- What follows a step matters for the results of the step alone. -/
theorem bind_congr_of_eq_ok {x : Except ε α} {f g : α → Except ε β}
    (h : ∀ a, x = .ok a → f a = g a) : (x >>= f) = (x >>= g) := by
  cases x with
  | error e => rfl
  | ok a => exact h a rfl

theorem toOption_eq_some_iff {x : Except ε α} {a : α} : x.toOption = some a ↔ x = .ok a := by
  cases x <;> simp [Except.toOption]

theorem map_eq_ok_iff {f : α → β} {x : Except ε α} {b : β} :
    x.map f = .ok b ↔ ∃ a, x = .ok a ∧ f a = b := by
  cases x with
  | error e => simp
  | ok a => simp

end Outcome

section Repetition
variable {ε α β σ : Type}

/-- A step along all parts of the items of a list is taken item by item. -/
theorem foldlM_flatMap (step : σ → β → Except ε σ) (parts : α → List β) (items : List α)
    (state : σ) :
    (items.flatMap parts).foldlM step state =
      items.foldlM (fun state a => (parts a).foldlM step state) state := by
  induction items generalizing state with
  | nil => rfl
  | cons a rest ih =>
    simp only [List.flatMap_cons, List.foldlM_append, List.foldlM_cons]
    exact bind_congr ih

/-- Steps that agree on the items of a list, in states that they keep in a set, lead to the same
result. -/
theorem foldlM_congr_of_invariant {step other : σ → α → Except ε σ} {items : List α} {state : σ}
    (Inv : σ → Prop) (hstate : Inv state)
    (h : ∀ a ∈ items, ∀ s, Inv s → step s a = other s a)
    (hinv : ∀ a ∈ items, ∀ s t, Inv s → step s a = .ok t → Inv t) :
    items.foldlM step state = items.foldlM other state := by
  induction items generalizing state with
  | nil => rfl
  | cons a rest ih =>
    simp only [List.foldlM_cons, ← h a List.mem_cons_self state hstate]
    refine bind_congr_of_eq_ok fun t ht => ?_
    exact ih (hinv a List.mem_cons_self state t hstate ht)
      (fun b hb => h b (List.mem_cons_of_mem _ hb)) fun b hb => hinv b (List.mem_cons_of_mem _ hb)

/-- Steps that agree on the items of a list lead to the same result. -/
theorem foldlM_congr {step other : σ → α → Except ε σ} {items : List α} (state : σ)
    (h : ∀ a ∈ items, ∀ s, step s a = other s a) :
    items.foldlM step state = items.foldlM other state :=
  foldlM_congr_of_invariant (fun _ => True) trivial (fun a ha s _ => h a ha s)
    fun _ _ _ _ _ _ => trivial

theorem mapM_congr {f g : α → Except ε β} {items : List α} (h : ∀ a ∈ items, f a = g a) :
    items.mapM f = items.mapM g := by
  induction items with
  | nil => rfl
  | cons a rest ih =>
    rw [List.mapM_cons, List.mapM_cons, h a List.mem_cons_self,
      ih fun b hb => h b (List.mem_cons_of_mem _ hb)]

/-- A step along a list that fails on some items in every state, and never on the others, fails when
such an item is in the list. -/
theorem exists_error_foldlM_iff {step : σ → α → Except ε σ} {items : List α} {state : σ}
    (Fails : α → Prop) (h : ∀ a ∈ items, ∀ s, (∃ e, step s a = .error e) ↔ Fails a) :
    (∃ e, items.foldlM step state = .error e) ↔ ∃ a ∈ items, Fails a := by
  induction items generalizing state with
  | nil => simp [pure, Except.pure]
  | cons a rest ih =>
    have hrest : ∀ s, (∃ e, rest.foldlM step s = .error e) ↔ ∃ b ∈ rest, Fails b :=
      fun s => ih fun b hb => h b (List.mem_cons_of_mem _ hb)
    have hhead := h a List.mem_cons_self state
    rw [List.foldlM_cons, exists_error_bind_iff]
    simp only [hrest, hhead, List.mem_cons, exists_eq_or_imp]
    cases hstep : step state a with
    | error e => simp [← hhead, hstep]
    | ok next => simp

/-- A step along a list, taken item by item, fails when it does on one of the items. -/
theorem exists_error_mapM_iff {f : α → Except ε β} {items : List α} :
    (∃ e, items.mapM f = .error e) ↔ ∃ a ∈ items, ∃ e, f a = .error e := by
  induction items with
  | nil => simp [pure, Except.pure]
  | cons a rest ih =>
    rw [List.mapM_cons, exists_error_bind_iff]
    simp only [exists_error_bind_iff, ih, pure, Except.pure, reduceCtorEq, exists_false, and_false,
      or_false, List.mem_cons, exists_eq_or_imp]
    cases hhead : f a with
    | error e => simp
    | ok b => simp

/-- A step along the items that are chosen has the results that are chosen alike. -/
theorem mapM_filter {f : α → Except ε β} {chosen : α → Bool} {chosen' : β → Bool} {items : List α}
    {results : List β} (hchosen : ∀ a b, f a = .ok b → chosen' b = chosen a)
    (h : items.mapM f = .ok results) :
    (items.filter chosen).mapM f = .ok (results.filter chosen') := by
  induction items generalizing results with
  | nil =>
    obtain rfl := Except.ok.inj h
    rfl
  | cons a rest ih =>
    rw [List.mapM_cons] at h
    obtain ⟨b, hb, h⟩ := bind_eq_ok_iff.1 h
    obtain ⟨bs, hbs, h⟩ := bind_eq_ok_iff.1 h
    obtain rfl := Except.ok.inj h
    have hrest := ih hbs
    cases hkept : chosen a with
    | false =>
      rw [List.filter_cons_of_neg (by simp [hkept]),
        List.filter_cons_of_neg (by simp [hchosen a b hb, hkept]), hrest]
    | true =>
      rw [List.filter_cons_of_pos hkept, List.filter_cons_of_pos (by rw [hchosen a b hb, hkept]),
        List.mapM_cons, hb, hrest]
      rfl

/-- Values computed one by one correspond to their entries. -/
theorem forall₂_of_mapM_eq_ok {f : α → Except ε β} {entries : List α}
    {planned : List β} (h : entries.mapM f = .ok planned) :
    List.Forall₂ (fun a b => f a = .ok b) entries planned := by
  induction entries generalizing planned with
  | nil =>
    obtain rfl := Except.ok.inj h
    exact List.Forall₂.nil
  | cons a entries ih =>
    rw [List.mapM_cons] at h
    obtain ⟨b, hb, h⟩ := bind_eq_ok_iff.1 h
    obtain ⟨rest, hrest, h⟩ := bind_eq_ok_iff.1 h
    obtain rfl := Except.ok.inj h
    exact List.Forall₂.cons hb (ih hrest)

/-- What is chosen from the results of a step along a list is chosen item by item. -/
theorem filterMap_of_mapM_eq_ok {γ : Type} {f : α → Except ε β} {items : List α}
    {results : List β} (g : β → Option γ) (h : items.mapM f = .ok results) :
    results.filterMap g = items.filterMap fun a => (f a).toOption.bind g := by
  have hpairs := forall₂_of_mapM_eq_ok h
  clear h
  induction hpairs with
  | nil => rfl
  | cons hhead _ ih =>
    rw [List.filterMap_cons, List.filterMap_cons, ih, hhead]
    rfl

/-- Every value of a second list corresponds to some entry of the first. -/
theorem exists_of_mem_forall₂ {R : α → β → Prop} {entries : List α}
    {planned : List β} (h : List.Forall₂ R entries planned) :
    ∀ b ∈ planned, ∃ a ∈ entries, R a b := by
  induction h with
  | nil => simp
  | cons hab _ ih =>
    intro c hc
    rcases List.mem_cons.1 hc with rfl | hc
    · exact ⟨_, by simp, hab⟩
    · obtain ⟨a, ha, hrel⟩ := ih c hc
      exact ⟨a, by simp [ha], hrel⟩

end Repetition

section Views
variable {ε α α' β β' γ δ : Type}

/-- Optional values that look alike are both missing, or both there and look alike. -/
theorem cases_of_map_eq {φ : α → γ} {φ' : α' → γ} {a : Option α} {a' : Option α'}
    (h : a.map φ = a'.map φ') :
    (a = none ∧ a' = none) ∨ ∃ b b', a = some b ∧ a' = some b' ∧ φ b = φ' b' := by
  cases a with
  | none => exact Or.inl ⟨rfl, by simpa using h.symm⟩
  | some b =>
    obtain ⟨b', hb', heq⟩ := Option.map_eq_some_iff.1 h.symm
    exact Or.inr ⟨b, b', rfl, hb', heq.symm⟩

/-- What looks alike on items that do looks alike on lists. -/
theorem map_congr_of_map_eq {φ : α → γ} {φ' : α' → γ} {f : α → δ} {f' : α' → δ} {items : List α}
    {items' : List α'} (h : items.map φ = items'.map φ')
    (hf : ∀ a a', φ a = φ' a' → f a = f' a') : items.map f = items'.map f' := by
  induction items generalizing items' with
  | nil =>
    rw [List.map_eq_nil_iff.1 h.symm]
    rfl
  | cons a rest ih =>
    cases items' with
    | nil => cases h
    | cons a' rest' =>
      obtain ⟨ha, hrest⟩ := List.cons.inj h
      simp only [List.map_cons, hf a a' ha, ih hrest]

/-- What is chosen alike from items that look alike looks alike. -/
theorem filter_congr_of_map_eq {φ : α → γ} {φ' : α' → γ} {chosen : α → Bool} {chosen' : α' → Bool}
    {items : List α} {items' : List α'} (h : items.map φ = items'.map φ')
    (hchosen : ∀ a a', φ a = φ' a' → chosen a = chosen' a') :
    (items.filter chosen).map φ = (items'.filter chosen').map φ' := by
  induction items generalizing items' with
  | nil =>
    rw [List.map_eq_nil_iff.1 h.symm]
    rfl
  | cons a rest ih =>
    cases items' with
    | nil => cases h
    | cons a' rest' =>
      obtain ⟨ha, hrest⟩ := List.cons.inj h
      rw [List.filter_cons, List.filter_cons, hchosen a a' ha]
      split
      · rw [List.map_cons, List.map_cons, ha, ih hrest]
      · exact ih hrest

theorem flatMap_congr_of_map_eq {φ : α → γ} {φ' : α' → γ} {f : α → List δ} {f' : α' → List δ}
    {items : List α} {items' : List α'} (h : items.map φ = items'.map φ')
    (hf : ∀ a a', φ a = φ' a' → f a = f' a') : items.flatMap f = items'.flatMap f' := by
  rw [List.flatMap_def, List.flatMap_def, map_congr_of_map_eq h hf]

/-- Steps look alike when their first parts do and what follows looks alike on parts that do. -/
theorem map_bind_congr {φ : α → γ} {φ' : α' → γ} {ψ : β → δ} {ψ' : β' → δ} {x : Except ε α}
    {x' : Except ε α'} {f : α → Except ε β} {f' : α' → Except ε β'} (hx : x.map φ = x'.map φ')
    (hf : ∀ a a', φ a = φ' a' → (f a).map ψ = (f' a').map ψ') :
    (x >>= f).map ψ = (x' >>= f').map ψ' := by
  cases x with
  | error e =>
    cases x' with
    | error e' => simpa using hx
    | ok a' => cases hx
  | ok a =>
    cases x' with
    | error e' => cases hx
    | ok a' => exact hf a a' (Except.ok.inj hx)

/-- Steps with the same first part look alike when what follows does. -/
theorem map_bind_congr_right {ψ : β → δ} {ψ' : β' → δ} {f : α → Except ε β} {f' : α → Except ε β'}
    (x : Except ε α) (hf : ∀ a, (f a).map ψ = (f' a).map ψ') :
    (x >>= f).map ψ = (x >>= f').map ψ' := by
  cases x with
  | error e => rfl
  | ok a => exact hf a

/-- A step along a list looks alike when it does on every item. -/
theorem map_mapM_congr {ψ : β → δ} {ψ' : β' → δ} {f : α → Except ε β} {f' : α → Except ε β'}
    {items : List α} (hf : ∀ a ∈ items, (f a).map ψ = (f' a).map ψ') :
    (items.mapM f).map (List.map ψ) = (items.mapM f').map (List.map ψ') := by
  induction items with
  | nil => rfl
  | cons a rest ih =>
    rw [List.mapM_cons, List.mapM_cons]
    refine map_bind_congr (hf a List.mem_cons_self) fun b b' hb => ?_
    refine map_bind_congr (ih fun c hc => hf c (List.mem_cons_of_mem _ hc)) fun bs bs' hbs => ?_
    simp [pure, Except.pure, hb, hbs]

/-- Steps that keep states looking alike do so along a list. -/
theorem map_foldlM_congr {φ : β → γ} {φ' : β' → γ} {step : β → α → Except ε β}
    {step' : β' → α → Except ε β'} {items : List α} {s : β} {s' : β'} (hs : φ s = φ' s')
    (hstep : ∀ s s' a, φ s = φ' s' → (step s a).map φ = (step' s' a).map φ') :
    (items.foldlM step s).map φ = (items.foldlM step' s').map φ' := by
  induction items generalizing s s' with
  | nil => simpa [pure, Except.pure] using hs
  | cons a rest ih =>
    rw [List.foldlM_cons, List.foldlM_cons]
    exact map_bind_congr (hstep s s' a hs) fun t t' ht => ih ht

end Views

section Pairs
variable {ε α α' β β' : Type}

/-- Two steps of which the second succeeds when the first does, with a related result. -/
def Carries (R : α → α' → Prop) (x : Except ε α) (x' : Except ε α') : Prop :=
  ∀ a, x = .ok a → ∃ a', x' = .ok a' ∧ R a a'

namespace Carries
variable {R : α → α' → Prop} {S : β → β' → Prop}

theorem ok {a : α} {a' : α'} (h : R a a') : Carries R (.ok a : Except ε α) (.ok a') := by
  intro b hb
  obtain rfl := Except.ok.inj hb
  exact ⟨a', rfl, h⟩

/-- What follows two such steps carries over when it does from related results. -/
theorem bind {x : Except ε α} {x' : Except ε α'} {f : α → Except ε β} {f' : α' → Except ε β'}
    (hx : Carries R x x') (hf : ∀ a a', R a a' → Carries S (f a) (f' a')) :
    Carries S (x >>= f) (x' >>= f') := by
  intro b hb
  obtain ⟨a, ha, hb⟩ := bind_eq_ok_iff.1 hb
  obtain ⟨a', ha', hrel⟩ := hx a ha
  rw [ha', ok_bind]
  exact hf a a' hrel b hb

/-- What follows one step carries over when it does from its results. -/
theorem bind_right {x : Except ε α} {f : α → Except ε β} {f' : α → Except ε β'}
    (hf : ∀ a, Carries S (f a) (f' a)) : Carries S (x >>= f) (x >>= f') := by
  intro b hb
  obtain ⟨a, ha, hb⟩ := bind_eq_ok_iff.1 hb
  rw [ha, ok_bind]
  exact hf a b hb

/-- A step along a list carries over item by item. -/
theorem mapM {f : α → Except ε β} {f' : α → Except ε β'} {items : List α}
    (hf : ∀ a ∈ items, Carries S (f a) (f' a)) :
    Carries (List.Forall₂ S) (items.mapM f) (items.mapM f') := by
  induction items with
  | nil => exact ok List.Forall₂.nil
  | cons a rest ih =>
    rw [List.mapM_cons, List.mapM_cons]
    refine bind (hf a List.mem_cons_self) fun b b' hb => ?_
    refine bind (ih fun c hc => hf c (List.mem_cons_of_mem _ hc)) fun bs bs' hbs => ?_
    exact ok (List.Forall₂.cons hb hbs)

end Carries

/-- Lists whose items look alike in pairs look alike. -/
theorem map_eq_of_forall₂ {γ : Type} {φ : α → γ} {φ' : α' → γ} {items : List α} {items' : List α'}
    (h : List.Forall₂ (fun a a' => φ a = φ' a') items items') : items.map φ = items'.map φ' := by
  induction h with
  | nil => rfl
  | cons hhead _ ih => rw [List.map_cons, List.map_cons, hhead, ih]

end Pairs

end ApiGateway
