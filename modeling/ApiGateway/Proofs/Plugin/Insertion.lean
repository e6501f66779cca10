import ApiGateway.Proofs.Plugin.Removal
import ApiGateway.Proofs.Text.ByteOrder

/-!
# Putting plugins into a list

Putting a plugin into a list in strictly increasing order of names sets one value of the map that
the list stands for, wherever the halving search ends: in front of all names, behind them, between
two of them, or at the name itself. Since a map has only one list in order, plugins of different
names may be put into a list in any order, and of two plugins of one name the second stays.

## Main definitions

* `Plugin.ByteOrdered`: the order, by the bytes of names.

## Main results

* `Plugin.insert_comm`, `Plugin.insert_insert_of_name_eq`: two plugins put into a list.
* `Plugin.update_of_insert`: putting a plugin into a list as the update of a map.
-/
namespace ApiGateway.Plugin

/-- In strictly increasing order of the bytes of names, so that no name stands twice. -/
def ByteOrdered (plugins : List Members) : Prop :=
  plugins.Pairwise fun p q => Text.bytes (name p) < Text.bytes (name q)

/-- The order of names is that of their bytes. -/
theorem byteOrdered_iff {plugins : List Members} : ByteOrdered plugins ↔ Ordered plugins := by
  simp only [ByteOrdered, Ordered, Text.bytes_lt_iff]

section Insert
variable {plugins : List Members} {p q : Members}

/-- A plugin replaces any other one of its name. -/
theorem eq_of_mem_insert (hord : Ordered plugins) (hq : q ∈ insert plugins p)
    (hname : name q = name p) : q = p :=
  ((mem_insert hord).1 hq).resolve_right fun hkept => hkept.2 hname

/-- The plugins of all other names stay as they are, in the order they have. -/
theorem without_insert (hord : Ordered plugins) (p : Members) :
    without (name p) (insert plugins p) = without (name p) plugins :=
  ((AgreeBut.refl hord).insert_left rfl).without_eq

/-- Plugins of different names may be put into a list in either order. -/
theorem insert_comm (hord : Ordered plugins) (hne : name p ≠ name q) :
    insert (insert plugins p) q = insert (insert plugins q) p := by
  have hp := hord.insert p
  have hq := hord.insert q
  -- ordered lists of one map are the same, so the places where the searches end do not matter
  refine (hp.insert q).ext (hq.insert p) fun n => ?_
  rw [find?_insert hp, find?_insert hord, find?_insert hq, find?_insert hord]
  by_cases hn : n = name p
  · have hnq : n ≠ name q := fun h => hne (hn.symm.trans h)
    rw [if_neg hnq, if_pos hn, if_pos hn]
  · rw [if_neg hn, if_neg hn]

/-- Of two plugins of one name the second stays. -/
theorem insert_insert_of_name_eq (hord : Ordered plugins) (hname : name p = name q) :
    insert (insert plugins p) q = insert plugins q := by
  have hp := hord.insert p
  refine (hp.insert q).ext (hord.insert q) fun n => ?_
  rw [find?_insert hp, find?_insert hord, find?_insert hord, hname]
  by_cases hn : n = name q
  · rw [if_pos hn, if_pos hn]
  · rw [if_neg hn, if_neg hn, if_neg hn]

end Insert

/-- Putting a plugin into a list in strictly increasing order of the bytes of names is the update of
a map. The list stays in that order and holds the plugin, no other one of its name, and the plugins
of all other names as before, in the order they had; so the name leads to the plugin, and every
other name to what it led to. Two plugins of different names may be put into it in either order, and
of two plugins of one name the second stays. -/
theorem update_of_insert {plugins : List Members} (hbytes : ByteOrdered plugins) :
    (∀ p, ByteOrdered (insert plugins p) ∧
      p ∈ insert plugins p ∧
      (∀ q ∈ insert plugins p, name q = name p → q = p) ∧
      without (name p) (insert plugins p) = without (name p) plugins ∧
      ∀ n, find? (insert plugins p) n = if n = name p then some p else find? plugins n) ∧
    (∀ p q, name p ≠ name q → insert (insert plugins p) q = insert (insert plugins q) p) ∧
    ∀ p q, name p = name q → insert (insert plugins p) q = insert plugins q := by
  have hord : Ordered plugins := byteOrdered_iff.1 hbytes
  refine ⟨?_, fun p q => insert_comm hord, fun p q => insert_insert_of_name_eq hord⟩
  intro p
  have hmem : p ∈ insert plugins p := (mem_insert hord).2 (.inl rfl)
  exact ⟨byteOrdered_iff.2 (hord.insert p), hmem, fun q => eq_of_mem_insert hord,
    without_insert hord p, find?_insert hord p⟩

/-- The plugins of a door. The last name starts with a character of three bytes. -/
def doorPlugins : List Members :=
  [[("name", .str "acl")], [("name", .str "key-auth")], [("name", .str "～chime")]]

/-- A plugin whose name starts with a character of four bytes. -/
def bellPlugin : Members := [("name", .str "🔔")]

/-- A plugin of a name that the list has. -/
def openDoorPlugin : Members := [("enabled", .bool false), ("name", .str "key-auth")]

/-- A plugin without a name goes to the front, the one whose name starts with four bytes to the end,
and the one of a name that the list has takes the place of the plugin there. -/
theorem update_of_insert_door : ByteOrdered doorPlugins ∧
    (insert (insert (insert doorPlugins bellPlugin) [("enabled", .bool false)])
      openDoorPlugin).map name = ["", "acl", "key-auth", "～chime", "🔔"] ∧
    openDoorPlugin ∈ insert doorPlugins openDoorPlugin ∧
    [("name", .str "key-auth")] ∉ insert doorPlugins openDoorPlugin ∧
    without "key-auth" (insert doorPlugins openDoorPlugin) = without "key-auth" doorPlugins ∧
    insert (insert doorPlugins bellPlugin) openDoorPlugin =
      insert (insert doorPlugins openDoorPlugin) bellPlugin ∧
    insert (insert doorPlugins openDoorPlugin) [("name", .str "key-auth")] =
      insert doorPlugins [("name", .str "key-auth")] := by
  have hbytes : ByteOrdered doorPlugins := byteOrdered_iff.2 (by unfold Ordered; decide)
  obtain ⟨hone, hcomm, hsame⟩ := update_of_insert hbytes
  obtain ⟨-, hmem, honly, hothers, -⟩ := hone openDoorPlugin
  refine ⟨hbytes, by decide +kernel, hmem, ?_, hothers, hcomm _ _ (by decide),
    hsame _ _ (by decide)⟩
  intro hold
  have hlength := congrArg List.length (honly _ hold (by decide))
  exact absurd hlength (by decide)

end ApiGateway.Plugin
