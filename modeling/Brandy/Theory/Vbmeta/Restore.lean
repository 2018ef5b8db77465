import Brandy.Theory.Vbmeta.Binding

/-!
# What the Verification Leaves in Memory

The salt is put into the memory in front of the image, and what was there is saved. It comes back
when the hash is right. When the hash is wrong the salt stays. The saved length is the length of the
salt rounded up in 32 bits, which is zero for the last 64 lengths.

## Main definitions

* `Restored`: The condition on the blob and the memory.

## Theorems

* `memory_restored_iff`: When the memory is as it was.
-/

namespace Brandy.Vbmeta

open Process List
open Text

section

variable (w : World) {imageData : BitVec 32} {imageLen : Nat} {b : Blob} {d : HashDescriptor}

/-- The salt is not put into memory, or is there already, or is taken away again: its length can be
    rounded up in 32 bits, and the hash is right. -/
def Restored (imageData : BitVec 32) (imageLen : Nat) (b : Blob) (d : HashDescriptor) (s : St) :
    Prop :=
  imageLen ≠ d.imageSize ∨ w.alloc s.allocs = false ∨ salted w imageData b d s.ram = s.ram ∨
    (d.saltLen + 63 < 2 ^ 32 ∧ w.sha256 (hashedImage w imageData imageLen b d s.ram) =
      copyBytes w b d (descriptorSize + d.partitionNameLen + d.saltLen) 32)

theorem salted_restored (hlt : d.saltLen + 63 < 2 ^ 32) {m : Ram 32} :
    (salted w imageData b d m).write
        (imageData - BitVec.ofNat 32 ((d.saltLen + 63) / 64 * 64 % 2 ^ 32))
        (m.read (imageData - BitVec.ofNat 32 ((d.saltLen + 63) / 64 * 64 % 2 ^ 32))
          ((d.saltLen + 63) / 64 * 64 % 2 ^ 32)) = m := by
  rw [Nat.mod_eq_of_lt (show (d.saltLen + 63) / 64 * 64 < 2 ^ 32 by omega)]
  have hle : d.saltLen ≤ (d.saltLen + 63) / 64 * 64 := by omega
  have hbound : (d.saltLen + 63) / 64 * 64 ≤ 2 ^ 32 := by omega
  generalize (d.saltLen + 63) / 64 * 64 = n at hle hbound
  have haddr : imageData - BitVec.ofNat 32 d.saltLen =
      imageData - BitVec.ofNat 32 n + BitVec.ofNat 32 (n - d.saltLen) := by
    rw [sub_eq_iff_eq_add, Ram.add_ofNat_add, Nat.sub_add_cancel hle, BitVec.sub_add_cancel]
  unfold salted
  rw [haddr]
  exact Ram.write_read_around m _ (by simp only [copyBytes, length_map, length_range]; omega)
    hbound

theorem checkImage_ram_iff (imageData : BitVec 32) (imageLen : Nat) (b : Blob) (s : St)
    (hsalt : d.saltLen < 2 ^ 32) :
    ∃ ret s', checkImage w imageData imageLen b d s = .ret ret s' ∧
      (s'.ram = s.ram ↔ Restored w imageData imageLen b d s) := by
  rw [checkImage_eq]
  unfold Restored
  split
  case isTrue hsize => exact ⟨_, _, rfl, iff_of_true rfl (.inl hsize)⟩
  case isFalse hsize =>
    split
    case isTrue hno => exact ⟨_, _, rfl, iff_of_true rfl (.inr (.inl hno))⟩
    case isFalse hok =>
      rw [or_iff_right hsize, or_iff_right hok]
      split
      case isTrue hhash =>
        refine ⟨_, _, rfl, ?_⟩
        by_cases hwrap : d.saltLen + 63 < 2 ^ 32
        · exact iff_of_true (salted_restored w hwrap) (.inr ⟨hwrap, hhash⟩)
        · -- the rounded length is zero
          have hzero : (d.saltLen + 63) / 64 * 64 % 2 ^ 32 = 0 := by omega
          simp only [hzero, Ram.read, Ram.write_nil]
          exact ⟨.inl, fun hor => hor.resolve_right fun hboth => hwrap hboth.1⟩
      case isFalse hhash =>
        exact ⟨_, _, rfl, .inl, fun hor => hor.resolve_right fun hboth => hhash hboth.2⟩

theorem field_lt (b : Blob) (a : BitVec 32) (n : Nat) : b.field a n < 256 ^ n := by
  have hlt := Memory.leValue_lt (b.ram.read a n).reverse
  rwa [length_reverse, Ram.length_read] at hlt

end

/-- When the verification returns, the memory is as it was exactly when, for the descriptor chosen
    in a blob that was accepted, the salt has not stayed. -/
theorem memory_restored_iff (w : World) (imageName : CString) (imageData : BitVec 32)
    (imageLen : Nat) (b : Blob) (pubkeyInToc1 : CString) (s : St) :
    (∀ ret s', verifyImageByVbmeta w imageName imageData imageLen 2 b pubkeyInToc1 s = .ret ret s' →
      s'.ram = s.ram) ↔
    ∀ b' pub d s₁ s₂, choose w imageName b pubkeyInToc1 s = .ret (some (b', pub, d)) s₁ →
      acceptBlob w b' pub s₁ = .ret true s₂ → Restored w imageData imageLen b' d s₂ := by
  rw [verify_eq_choose, bind_run]
  have hram := choose_sameRam w imageName b pubkeyInToc1 s
  have hspec := choose_spec w imageName b pubkeyInToc1 s trivial
  generalize choose w imageName b pubkeyInToc1 s = r at hram hspec ⊢
  rcases r with ⟨_ | ⟨b', pub, d⟩, s₁⟩ | ⟨e, s₁⟩
  · refine iff_of_true (fun ret s' h => ?_) (fun _ _ _ _ _ h => by cases h)
    cases h
    exact hram
  · have hmatch := (hspec _ s₁ rfl b' pub d rfl).2
    have hsame : s₁.ram = s.ram := hram
    have hram₂ := acceptBlob_sameRam w b' pub s₁
    rw [ret_bind, verifyChosen, bind_run]
    rcases haccept : acceptBlob w b' pub s₁ with ⟨_ | _, s₂⟩ | ⟨e, s₂⟩
    · rw [haccept] at hram₂
      refine iff_of_true (fun ret s' h => ?_) (fun b'' pub' d' s₁' s₂' h h' => ?_)
      · cases h
        exact Eq.trans hram₂ hsame
      · cases h
        rw [haccept] at h'
        cases h'
    · rw [haccept] at hram₂
      have hsame₂ : s₂.ram = s.ram := Eq.trans hram₂ hsame
      have hsalt : d.saltLen < 2 ^ 32 := by
        rw [hmatch.fields]
        exact field_lt b' _ 4
      rcases checkImage_ram_iff w imageData imageLen b' s₂ hsalt with ⟨ret₀, s₀, hcheck, hiff⟩
      rw [hsame₂] at hiff
      rw [ret_bind, if_pos rfl, hcheck]
      constructor
      · intro h b'' pub' d' s₁' s₂' h₁ h₂
        cases h₁
        rw [haccept] at h₂
        cases h₂
        exact hiff.mp (h ret₀ s₀ rfl)
      · intro h ret s' hrun
        cases hrun
        exact hiff.mpr (h b' pub d s₁ s₂ rfl haccept)
    · refine iff_of_true (fun ret s' h => by cases h) (fun b'' pub' d' s₁' s₂' h h' => ?_)
      cases h
      rw [haccept] at h'
      cases h'
  · exact iff_of_true (fun ret s' h => by cases h) (fun _ _ _ _ _ h => by cases h)

/-- A vbmeta blob with a salt of four bytes and a wrong digest for the partition `boot`. -/
def saltedBytes : List UInt8 :=
  ascii "AVB0" ++ replicate 8 0 ++ be64 64 ++ be64 448 ++ replicate 12 0 ++ be64 32 ++
    replicate 16 0 ++ be64 176 ++ replicate 32 0 ++ be64 176 ++ replicate 208 0 ++
    be64 2 ++ be64 160 ++ be64 0 ++ replicate 32 0 ++ [0, 0, 0, 4] ++ [0, 0, 0, 4] ++
    [0, 0, 0, 32] ++ replicate 64 0 ++ ascii "boot" ++ replicate 36 1 ++
    replicate 4 0 ++ [0, 0, 8, 0]

/-- The image is refused, and the byte in front of it is a byte of the salt. -/
theorem salt_left_behind :
    let r := verifyImageByVbmeta plainWorld ⟨ascii "boot", by decide⟩ 4096 0 2
      ⟨Ram.write (fun _ => 0) 0 saltedBytes, 0, 768⟩ ⟨ascii "vbmeta", by decide⟩ ⟨fun _ => 0, 0⟩
    returned r = some (-1) ∧ r.state.ram 4095 = 1 := by
  decide +kernel

end Brandy.Vbmeta
