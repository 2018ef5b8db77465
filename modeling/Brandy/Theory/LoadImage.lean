import Brandy.Core.LoadImage

/-!
# What the Name of an Item Stands For

Most branches compare a name and its NUL. But the branches for U-Boot compare as many bytes as the
name in the package has, so a beginning of `u-boot` is enough, and those for a compressed device
tree as many as the item name has, so anything may follow it.

## Main definitions

* `Clear`: A name that no loose comparison takes for another one.
* `Exact`, `Reports`: Entries are what their names say, and failures are returned.

## Theorems

* `dispatched_iff`: When the entries are what their names say.
* `reports_iff`: When failures are returned.
-/

namespace Brandy.LoadImage

open List Text

theorem strncmp_eq_zero {cs ct : List UInt8} (hcs : 0 ∉ cs) (hct : 0 ∉ ct) (n : Nat) :
    strncmp cs ct n = 0 ↔ cs.take n = ct.take n := by
  induction n generalizing cs ct with
  | zero => simp [strncmp]
  | succ n ih =>
    cases cs with
    | nil =>
      cases ct with
      | nil => simp [strncmp]
      | cons d ct => simp [strncmp, (ne_of_not_mem_cons hct).symm]
    | cons c cs =>
      have hc := (ne_of_not_mem_cons hcs).symm
      cases ct with
      | nil => simp [strncmp, hc]
      | cons d ct =>
        have hrest := ih (not_mem_of_not_mem_cons hcs) (not_mem_of_not_mem_cons hct)
        by_cases hd : c = d
        · simp [strncmp, ← hd, hc, hrest]
        · simp [strncmp, hd, UInt8.sub_eq_iff_eq_add]

/-- What a comparison says about a name. -/
def Bound.Accepts (item name : List UInt8) : Bound → Prop
  | strlenName => name <+: item
  | strlenItem => item <+: name
  | sizeofItem | sizeofName => name = item

theorem take_eq_iff {s t : List UInt8} {n : Nat} (ht : t.length < n) :
    s.take n = t.take n ↔ s = t := by
  refine ⟨fun h => ?_, fun h => by rw [h]⟩
  have hlen := congrArg length h
  rw [length_take, length_take] at hlen
  rwa [take_of_length_le (by omega), take_of_length_le (by omega)] at h

theorem strncmp_iff (name : CString) (item : Item) (bound : Bound) :
    strncmp name.bytes item.name (bound.count item.name name.bytes) = 0 ↔
      bound.Accepts item.name name.bytes := by
  obtain ⟨hnul, hlt⟩ : 0 ∉ item.name ∧ item.name.length < 64 := by
    rcases item with (_ | _ | _ | _) | _ | _ | _ | (_ | _ | _ | _) | _ | _ | (_ | _ | _ | _) |
      (_ | _ | _ | _) | (_ | _ | _ | _) | _ | _ | _ | _ <;> decide
  rw [strncmp_eq_zero name.noNul hnul]
  cases bound with
  | strlenName =>
    rw [Bound.count, take_length]
    exact prefix_iff_eq_take.symm
  | strlenItem =>
    rw [Bound.count, take_length, eq_comm]
    exact prefix_iff_eq_take.symm
  | sizeofItem => exact take_eq_iff (Nat.lt_succ_self _)
  | sizeofName => exact take_eq_iff hlt

variable {b : Build} {name : CString} {item : Item} {bound : Bound} {l : List (Item × Bound)}

theorem of_taken (h : taken name.bytes l = some item) :
    ∃ bound, (item, bound) ∈ l ∧ bound.Accepts item.name name.bytes := by
  obtain ⟨⟨_, bound⟩, hfind, rfl⟩ := Option.map_eq_some_iff.mp h
  have hfound := find?_some hfind
  exact ⟨bound, mem_of_find?_eq_some hfind, (strncmp_iff ..).mp (of_decide_eq_true hfound)⟩

theorem exists_taken (hmem : (item, bound) ∈ l) (hacc : bound.Accepts item.name name.bytes) :
    ∃ k, taken name.bytes l = some k := by
  rw [← Option.isSome_iff_exists, taken, Option.isSome_map, find?_isSome]
  exact ⟨_, hmem, decide_eq_true ((strncmp_iff ..).mpr hacc)⟩

/-- The branch for U-Boot is the first one. -/
theorem treatedAs_uboot (h : name.bytes <+: (Item.uboot none).name) :
    treatedAs b name.bytes = some (.uboot none) := by
  have hfirst : branches b = (.uboot none, .strlenName) :: (branches b).tail := rfl
  rw [treatedAs, taken, hfirst, find?_cons_of_pos]
  · rfl
  · exact decide_eq_true ((strncmp_iff name _ .strlenName).mpr h)

theorem of_treatedAs (h : treatedAs b name.bytes = some item) :
    item.comp.all b.has = true ∧
      ∃ bound, (item, bound) ∈ branches b ∧ bound.Accepts item.name name.bytes := by
  obtain ⟨first, htaken, h⟩ := Option.bind_eq_some_iff.mp h
  by_cases hcomp : first.comp = none
  · rw [if_pos hcomp] at h
    obtain rfl := Option.some.inj h
    exact ⟨by rw [hcomp]; rfl, of_taken htaken⟩
  · rw [if_neg hcomp] at h
    obtain ⟨bound, hmem, hacc⟩ := of_taken h
    obtain ⟨hmem, hhas⟩ := mem_filter.mp hmem
    exact ⟨by cases hc : item.comp <;> simp_all, bound, hmem, hacc⟩

theorem exists_treatedAs (hmem : (item, bound) ∈ branches b) (hhas : item.comp.any b.has = true)
    (hacc : bound.Accepts item.name name.bytes) : ∃ k, treatedAs b name.bytes = some k := by
  obtain ⟨k, hk⟩ := exists_taken hmem hacc
  rw [treatedAs, hk, Option.bind_some]
  by_cases hnone : k.comp = none
  · exact ⟨k, if_pos hnone⟩
  · rw [if_neg hnone]
    exact exists_taken (mem_filter.mpr ⟨hmem, hhas⟩) hacc

/-- Only U-Boot and compressed device trees have branches that do not compare the NUL. -/
theorem loose_branch (b : Build) : ∀ x ∈ branches b,
    (x.2 = .strlenName → ∃ c, x.1 = .uboot c) ∧ (x.2 = .strlenItem → ∃ c, x.1 = .dtb (some c)) := by
  obtain ⟨_, _ | _, _ | _, _ | _⟩ := b <;> simp [branches]

/-- A name that no loose comparison takes for another one. -/
def Clear (b : Build) (name : List UInt8) : Prop :=
  (∀ c, c.all b.has = true → name <+: (Item.uboot c).name →
    name = (Item.uboot c).name ∨ name = (Item.uboot none).name) ∧
  ∀ c, b.has c = true → (Item.dtb (some c)).name <+: name → name = (Item.dtb (some c)).name

theorem eq_name_of_clear (hclear : Clear b name.bytes) (h : treatedAs b name.bytes = some item) :
    name.bytes = item.name := by
  obtain ⟨hhas, bound, hmem, hacc⟩ := of_treatedAs h
  obtain ⟨huboot, hdtb⟩ := loose_branch b _ hmem
  cases bound with
  | strlenName =>
    obtain ⟨c, rfl⟩ := huboot rfl
    rcases hclear.1 c hhas hacc with hname | hname
    · exact hname
    · rw [treatedAs_uboot (hname ▸ prefix_rfl)] at h
      exact Option.some.inj h ▸ hname
  | strlenItem =>
    obtain ⟨c, rfl⟩ := hdtb rfl
    exact hclear.2 c hhas hacc
  | sizeofItem | sizeofName => exact hacc

theorem name_apart (k : Item) (c : Comp) :
    (k.name <+: (Item.uboot (some c)).name →
      k.name = (Item.uboot (some c)).name ∨ k.name = (Item.uboot none).name) ∧
    ((Item.dtb (some c)).name <+: k.name → k.name = (Item.dtb (some c)).name) := by
  rcases k with (_ | _ | _ | _) | _ | _ | _ | (_ | _ | _ | _) | _ | _ | (_ | _ | _ | _) |
    (_ | _ | _ | _) | (_ | _ | _ | _) | _ | _ | _ | _ <;> cases c <;> decide

theorem clear_of_eq_name (h : ∀ k, treatedAs b name.bytes = some k → name.bytes = k.name) :
    Clear b name.bytes := by
  refine ⟨fun c hc hpre => ?_, fun c hc hpre => ?_⟩
  · cases c with
    | none => exact .inl (h _ (treatedAs_uboot hpre))
    | some c =>
      have hmem : (.uboot (some c), .strlenName) ∈ branches b := by cases c <;> simp [branches]
      obtain ⟨k, hk⟩ := exists_treatedAs hmem hc hpre
      rw [h k hk] at hpre ⊢
      exact (name_apart k c).1 hpre
  · have hmem : (.dtb (some c), .strlenItem) ∈ branches b := by cases c <;> simp [branches]
    obtain ⟨k, hk⟩ := exists_treatedAs hmem hc hpre
    rw [h k hk] at hpre ⊢
    exact (name_apart k c).2 hpre

/-- Every entry is taken for what its name says, and only one for U-Boot changes `*uboot_base`. -/
def Exact (b : Build) (items : List TocItem) : Prop :=
  ∀ h ∈ loadImage b items, (∀ k, h.as = some k → h.entry.name.bytes = k.name) ∧
    (h.ubootBase ≠ none → ∃ c, h.entry.name.bytes = (Item.uboot c).name)

/-- The entries of a package are what their names say exactly if no name of type 3 is a beginning of
    the names for U-Boot or goes on behind those for compressed device trees. -/
theorem dispatched_iff (b : Build) (items : List TocItem) :
    Exact b items ↔ ∀ t ∈ items, t.type = 3 → Clear b t.name.bytes := by
  unfold Exact loadImage
  rw [forall_mem_map]
  refine forall₂_congr fun t _ => ?_
  by_cases htype : t.type = 3
  · have hclear : Clear b t.name.bytes ↔ _ :=
      ⟨fun hclear k => eq_name_of_clear hclear, clear_of_eq_name⟩
    simp only [hclear, loadItem, htype, ne_eq, not_true, if_false, true_imp_iff]
    refine and_iff_left_of_imp fun h hwrite => ?_
    split at hwrite
    · exact ⟨_, h _ ‹_›⟩
    · exact ⟨_, h _ ‹_›⟩
    · exact absurd rfl hwrite
  · simp [loadItem, htype]

/-- An entry without a name is U-Boot. -/
theorem empty_name_is_uboot :
    ¬ Exact ⟨fun _ => false, false, false, false⟩ [⟨3, ⟨[], not_mem_nil⟩, by decide, 0, none⟩] :=
  fun h => absurd ((h _ mem_cons_self).1 (.uboot none) rfl) (by decide)

def Failed (b : Build) (x : TocItem × Outcome) : Prop :=
  x.1.type = 3 ∧ compressed b x.1 = true ∧ loadCompImage b x.1 x.2 ≠ 0

instance (b : Build) : DecidablePred (Failed b) := fun _ => inferInstanceAs (Decidable (_ ∧ _))

/-- 0 is returned only if no entry has failed, and the messages are those of the entries that
    have. -/
def Reports (b : Build) (items : List (TocItem × Outcome)) : Prop :=
  ((loadImageRet b items).1 = 0 → ∀ x ∈ items, ¬ Failed b x) ∧
    (loadImageRet b items).2 = items.map fun x => decide (Failed b x)

theorem messages_of_not_failed {items : List (TocItem × Outcome)} (h : ∀ x ∈ items, ¬ Failed b x) :
    messages b 0 items = items.map fun x => decide (Failed b x) := by
  induction items with
  | nil => rfl
  | cons x items ih =>
    obtain ⟨hx, hitems⟩ := forall_mem_cons.mp h
    rw [map_cons, decide_eq_false hx, ← ih hitems, messages]
    by_cases htype : x.1.type = 3
    · -- the variable is still 0 after this turn
      have hret : (if compressed b x.1 then loadCompImage b x.1 x.2 else 0) = 0 := by
        by_contra hret
        exact hx ⟨htype, by grind⟩
      simp [htype, hret]
    · rw [if_pos htype]

/-- Failures are returned and reported exactly if there are none. -/
theorem reports_iff (b : Build) (items : List (TocItem × Outcome)) :
    Reports b items ↔ ∀ x ∈ items, ¬ Failed b x :=
  ⟨fun h => h.1 rfl, fun h => ⟨fun _ => h, messages_of_not_failed h⟩⟩

/-- Without memory for the compressed U-Boot 0 is returned. -/
theorem failure_not_returned : ¬ Reports ⟨fun _ => true, false, false, false⟩
    [(⟨3, ⟨ascii "u-boot-gz", by decide⟩, by decide, 0, none⟩, ⟨false, 0⟩)] :=
  fun h => h.1 rfl _ mem_cons_self (by decide)

end Brandy.LoadImage
