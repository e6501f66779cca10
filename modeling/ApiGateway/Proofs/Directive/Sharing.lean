import ApiGateway.Proofs.Plugin.Building

/-!
# Shared directives

An object that several scopes need can be kept in the namespace of directives and referred to. A
scope that refers to it reads the object as it stands there: a reference is followed once. Written
out in the scope, the same object is a value of a directive like any other, and if it has a `$ref`
then this one is followed. So the two spellings mean the same for objects without a `$ref`, and a
reference to a reference is taken into the configuration as it is.

## Main definitions

* `Directive.StandsForItself`: an object that is read as itself where it is written out.

## Main results

* `Directive.shared_eq_inline`: what the two spellings have in common, and when they differ.
-/
namespace ApiGateway.Directive

variable {doc : Document} {value target : Members} {key reference : String}

/-- An object that is read as itself where it is written out: it has no `$ref`, or one that leads
back to it. -/
def StandsForItself (doc : Document) (target : Members) : Prop :=
  target.get? "$ref" = none ∨
    ∃ own, target.get? "$ref" = some (.str own) ∧ Designates doc own target

theorem standsForItself_iff : StandsForItself doc target ↔ Means doc (.obj target) target := by
  constructor
  · rintro (hinline | ⟨own, hown, hdesignates⟩)
    · exact .inline hinline
    · exact .reference hown hdesignates
  · rintro (hinline | ⟨hown, hdesignates⟩)
    · exact .inl hinline
    · exact .inr ⟨_, hown, hdesignates⟩

/-- A scope that sets a directive to a reference reads what the reference stands for. -/
theorem object?_insert_reference (scope : Members) (key : String)
    (hreference : value.get? "$ref" = some (.str reference))
    (h : Designates doc reference target) :
    object? doc (scope.insert key (.obj value)) key = .ok (some target) :=
  object?_eq_ok_some_iff.2 ⟨_, Members.get?_insert_self .., .reference hreference h⟩

/-- A scope that sets a directive to an object reads this object when it stands for itself. -/
theorem object?_insert_inline_iff (scope : Members) (key : String) :
    object? doc (scope.insert key (.obj target)) key = .ok (some target) ↔
      StandsForItself doc target := by
  rw [object?_eq_ok_some_iff, standsForItself_iff, Members.get?_insert_self]
  simp

/-- Other directives of the scope are read as before. -/
theorem object?_insert_of_ne (scope : Members) {other : String} (hne : other ≠ key) (v : Json) :
    object? doc (scope.insert key v) other = object? doc scope other := by
  rw [object?, object?, Members.get?_insert, if_neg hne]

/-- A directive given by a reference, and the same directive written out. The reference is read as
the object that it stands for. Written out the object is read as the same one exactly when it
stands for itself, which it does if it has no `$ref`; then the scope has the same plugins in either
spelling. Whatever it has under `$ref` is taken over into the plugin that the reference
declares. -/
theorem shared_eq_inline (hreference : value.get? "$ref" = some (.str reference))
    (h : Designates doc reference target) (scope : Members) (key : String) :
    object? doc (scope.insert key (.obj value)) key = .ok (some target) ∧
    (object? doc (scope.insert key (.obj target)) key =
        object? doc (scope.insert key (.obj value)) key ↔ StandsForItself doc target) ∧
    (StandsForItself doc target → ∀ stamp base inherited,
      Plugin.build doc stamp base (scope.insert key (.obj target)) inherited =
        Plugin.build doc stamp base (scope.insert key (.obj value)) inherited) ∧
    ∀ n, key = pluginStart ++ n → ∀ stamp base inherited result,
      (inherited.map Plugin.name).Nodup →
      Plugin.build doc stamp base (scope.insert key (.obj value)) inherited = .ok result →
        ∃ p ∈ result, Plugin.name p = n ∧ p.get? "$ref" = target.get? "$ref" := by
  have hread := object?_insert_reference scope key hreference h
  refine ⟨hread, by rw [hread, object?_insert_inline_iff], ?_, ?_⟩
  · intro hitself stamp base inherited
    refine Plugin.build_congr (Members.keys_insert_congr ..) ?_ stamp base inherited
    intro other _ _
    by_cases hother : other = key
    · rw [hother, hread, (object?_insert_inline_iff scope key).2 hitself]
    · rw [object?_insert_of_ne scope hother, object?_insert_of_ne scope hother]
  · rintro n rfl stamp base inherited result hnodup hbuild
    have hmem := Plugin.restamp_mem_of_means hnodup hbuild (Members.get?_insert_self ..)
      (.reference hreference h)
    refine ⟨_, hmem, ?_, ?_⟩
    · rw [Plugin.name_restamp]
      simp [Plugin.name, Members.string?]
    · rw [Plugin.restamp, Stamp.get?_apply_of_ne _ _ _ _ (by decide) (by decide)]
      simp [Members.get?_insert, Members.get?_erase]

/-- A plugin that is referred to and has no `$ref` of its own is the same in either spelling. -/
theorem shared_eq_inline_turnstile :
    Designates Plugin.turnstileDocument "#/components/x-kong/auth"
      [("config", .obj [("hide_credentials", .bool true)]), ("service", .str "elsewhere")] ∧
    ∀ (scope : Members) stamp base inherited,
      Plugin.build Plugin.turnstileDocument stamp base
          (scope.insert "x-kong-plugin-key-auth" (.obj
            [("config", .obj [("hide_credentials", .bool true)]), ("service", .str "elsewhere")]))
          inherited =
        Plugin.build Plugin.turnstileDocument stamp base
          (scope.insert "x-kong-plugin-key-auth"
            (.obj [("$ref", .str "#/components/x-kong/auth")])) inherited := by
  have hreference : Members.get? [("$ref", .str "#/components/x-kong/auth")] "$ref" =
      some (.str "#/components/x-kong/auth") := rfl
  have hdesignates : Designates Plugin.turnstileDocument "#/components/x-kong/auth"
      [("config", .obj [("hide_credentials", .bool true)]), ("service", .str "elsewhere")] :=
    (dereference_eq_ok_iff hreference).1 rfl
  refine ⟨hdesignates, ?_⟩
  intro scope stamp base inherited
  exact (shared_eq_inline hreference hdesignates scope "x-kong-plugin-key-auth").2.2.1 (.inl rfl)
    stamp base inherited

/-- A document with a plugin in its namespace that is a reference to another one. -/
def lockerDocument : Document :=
  ⟨[("components", .obj [("x-kong", .obj
      [("auth", .obj [("$ref", .str "#/components/x-kong/shared")]),
        ("shared", .obj [("config", .obj [("hide_credentials", .bool true)])])])]),
    ("openapi", .str "3.0.0"), ("paths", .obj [])], "3.0.0"⟩

/-- A reference to a reference is followed once, and the list of the scope has a plugin with the
reference in it. Written out the same object is followed to the plugin behind it. -/
theorem exists_unresolved_reference :
    Designates lockerDocument "#/components/x-kong/auth"
      [("$ref", .str "#/components/x-kong/shared")] ∧
    object? lockerDocument
        [("x-kong-plugin-key-auth", .obj [("$ref", .str "#/components/x-kong/auth")])]
        "x-kong-plugin-key-auth" = .ok (some [("$ref", .str "#/components/x-kong/shared")]) ∧
    object? lockerDocument
        [("x-kong-plugin-key-auth", .obj [("$ref", .str "#/components/x-kong/shared")])]
        "x-kong-plugin-key-auth" =
      .ok (some [("config", .obj [("hide_credentials", .bool true)])]) ∧
    object? lockerDocument
        [("x-kong-plugin-key-auth", .obj [("$ref", .str "#/components/x-kong/auth")])]
        "x-kong-plugin-key-auth" ≠
      object? lockerDocument
        [("x-kong-plugin-key-auth", .obj [("$ref", .str "#/components/x-kong/shared")])]
        "x-kong-plugin-key-auth" ∧
    Plugin.build lockerDocument ⟨[], Uuid.dns, true, Uuid.named⟩ "locker"
        [("x-kong-plugin-key-auth", .obj [("$ref", .str "#/components/x-kong/auth")])] [] =
      .ok [[("$ref", .str "#/components/x-kong/shared"), ("name", .str "key-auth"),
        ("tags", .arr [])]] := by
  have hreference : Members.get? [("$ref", .str "#/components/x-kong/auth")] "$ref" =
      some (.str "#/components/x-kong/auth") := rfl
  refine ⟨(dereference_eq_ok_iff hreference).1 rfl, rfl, rfl, ?_, by cbv⟩
  intro hsame
  have hkey : "config" = "$ref" :=
    (Prod.mk.inj (List.cons.inj (Option.some.inj (Except.ok.inj hsame))).1).1.symm
  exact absurd hkey (by decide)

end ApiGateway.Directive
