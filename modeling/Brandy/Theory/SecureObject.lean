import Brandy.Core.SecureObject
import Brandy.Theory.MmcSecStorage

/-!
# What Reading a Secure Object Copies

The length of the payload is in the object. Nothing compares it with the room for a payload in an
object, and nothing with the length of the caller's buffer.

## Main definitions

* `Stored`: A content is stored under a name.
* `Safe`: The copy stays in the buffer and in the object.

## Theorems

* `objectRead_eq`: A read in terms of the content.
* `objectRead_safe_iff`: When reading an object is safe.
-/

namespace Brandy.SecureObject

open Text Word StoreObject SecStorage Memory List Option

/-- A content is stored under a name, and the map has a length for it. -/
def Stored (st : State) (itemName : CString) (content : List UInt8) (len : Int) : Prop :=
  st.inited = true ∧ ∃ index, probeNameInMap st.map itemName = some (index, len) ∧
    st.slots index = content

/-- The payload area of an object. -/
def payload (content : List UInt8) : List UInt8 := (content.drop dataOff).take maxStoreLen

/-- The copy stays in the buffer and in the object, and a success delivers the payload. -/
structure Safe (content : List UInt8) (bufferLen : Nat) (r : Unwrapped) : Prop where
  writes : r.copied ≤ bufferLen
  reads : dataOff + r.copied ≤ storeObjectSize
  result : r.ret = 0 → ∃ n : Nat, r.retLen = some (n : Int) ∧ n ≤ bufferLen ∧
    r.payload.bytes n = (payload content).take n

section

variable {st : State} {itemName : CString} {content : List UInt8} {len : Int}

theorem field_take {l : List UInt8} {off n : Nat} (h : off + 4 ≤ n) :
    field (l.take n) off = field l off := by
  unfold field
  rw [drop_take, take_take, Nat.min_eq_left (by omega)]

/-- The object in the array of the function. -/
def object (stack : Buffer) (content : List UInt8) : Buffer :=
  fun i => if i < 4096 then (content.take storeObjectSize).getD i 0 else stack i

theorem bytes_object (stack : Buffer) (hlength : content.length = 4096) {s n : Nat}
    (h : s + n ≤ storeObjectSize) :
    Buffer.bytes (fun i => object stack content (s + i)) n = (content.drop s).take n := by
  have hsize : storeObjectSize < 4096 := by decide
  refine ext_getElem (by simp; omega) fun i hi hi' => ?_
  rw [Buffer.length_bytes] at hi
  simp only [Buffer.bytes, getElem_map, getElem_range, getElem_take, getElem_drop,
    object]
  rw [if_pos (by omega), getD_eq_getElem?_getD, getElem?_take_of_lt (by omega),
    getElem?_eq_getElem (by omega), getD_some]

theorem objectRead_eq {stack buffer : Buffer} {bufferLen : Int}
    (h : Stored st itemName content len) :
    sunxiSecureObjectRead stack st itemName buffer bufferLen =
      if len < 0 then none
      else if len = storeObjectSize then
        some (unwrapSecureObject (object stack content) len buffer)
      else some ⟨-1, buffer, none, 0⟩ := by
  rcases h with ⟨hinit, index, hprobe, rfl⟩
  unfold sunxiSecureObjectRead sunxiSecureStorageRead
  simp only [hinit, hprobe, Bool.not_true, Bool.false_eq_true, if_false]
  by_cases hlen : len = storeObjectSize
  · subst hlen
    rfl
  · simp only [unwrapSecureObject, ne_eq, hlen, not_false_eq_true, if_true, if_false]

theorem objectRead_accepted {stack buffer : Buffer} (hlength : content.length = 4096) :
    unwrapSecureObject (object stack content) storeObjectSize buffer =
      if checkSecureStorageKey content = 0 then
        ⟨0, Buffer.memcpy buffer 0 (object stack content) dataOff (field content actualLenOff),
          some (s32 (field content actualLenOff)), field content actualLenOff⟩
      else ⟨-1, buffer, none, 0⟩ := by
  have hobj := bytes_object stack hlength (Nat.zero_add storeObjectSize).le
  simp only [Nat.zero_add, drop_zero] at hobj
  unfold unwrapSecureObject checkSecureStorageKey
  rw [show Buffer.bytes (object stack content) storeObjectSize = _ from hobj]
  simp only [ne_eq, not_true_eq_false, if_false]
  rw [field_take (by decide), field_take (by decide), field_take (by decide), take_take,
    Nat.min_eq_left (by decide)]
  split
  · rfl
  · split
    · rfl
    · rfl

/-- Reading an object is safe exactly if the map has no negative length for it and the length field
    of an accepted object is at most the length of the buffer and the room for a payload. -/
theorem objectRead_safe_iff (stack buffer : Buffer) (bufferLen : Nat)
    (h : Stored st itemName content len) (hlength : content.length = 4096) :
    (∃ r, sunxiSecureObjectRead stack st itemName buffer bufferLen = some r ∧
        Safe content bufferLen r) ↔
      0 ≤ len ∧ (len = storeObjectSize → checkSecureStorageKey content = 0 →
        field content actualLenOff ≤ bufferLen ∧ field content actualLenOff ≤ maxStoreLen) := by
  have hrefused : Safe content bufferLen ⟨-1, buffer, none, 0⟩ :=
    ⟨Nat.zero_le _, show dataOff ≤ storeObjectSize by decide, nofun⟩
  rw [objectRead_eq h]
  by_cases hneg : len < 0
  · rw [if_pos hneg]
    exact iff_of_false nofun fun hc => absurd hc.1 (not_le.mpr hneg)
  rw [if_neg hneg, and_iff_right (not_lt.mp hneg)]
  by_cases hsize : len = storeObjectSize
  · subst hsize
    rw [if_pos rfl, objectRead_accepted hlength]
    simp only [true_imp_iff, some.injEq, exists_eq_left']
    by_cases hcheck : checkSecureStorageKey content = 0
    · rw [if_pos hcheck, imp_iff_right hcheck]
      generalize field content actualLenOff = n
      have hint : n ≤ maxStoreLen + 4 → s32 n = n := by
        intro hn
        unfold maxStoreLen at hn
        exact s32_of_range
      constructor
      · rintro ⟨hwrites, hreads, hresult⟩
        obtain ⟨m, hm, -, hbytes⟩ := hresult rfl
        have hreads : dataOff + n ≤ storeObjectSize := hreads
        have hsize : storeObjectSize = dataOff + (maxStoreLen + 4) := rfl
        rw [hint (by omega), some.injEq, Int.natCast_inj] at hm
        subst hm
        -- the payload area has no more bytes than that
        have hroom := congrArg length hbytes
        rw [Buffer.length_bytes, length_take, payload, length_take] at hroom
        exact ⟨hwrites, by omega⟩
      · rintro ⟨hwrites, hroom⟩
        have hend : dataOff + n ≤ storeObjectSize := by
          unfold maxStoreLen at hroom
          unfold dataOff storeObjectSize storeObjectCrc
          omega
        refine ⟨hwrites, hend, fun _ => ⟨n, by rw [hint (by omega)], hwrites, ?_⟩⟩
        rw [Buffer.bytes_memcpy, bytes_object stack hlength hend, payload, take_take,
          Nat.min_eq_left hroom]
    · rw [if_neg hcheck]
      exact iff_of_true hrefused fun hc => absurd hc hcheck
  · rw [if_neg hsize]
    exact iff_of_true ⟨_, rfl, hrefused⟩ fun hc => absurd hc hsize

end

/-- An object up to its length field. -/
def longHead : List UInt8 := leBytes 4 storeObjectMagic ++ replicate 92 0

/-- An object up to its checksum, with a length field of 64. -/
def longBody : List UInt8 := longHead ++ (leBytes 4 64 ++ replicate 3072 0)

/-- The object with its checksum, filled up to an item. -/
def longObject : List UInt8 :=
  longBody ++ (leBytes 4 (crc32 0 longBody).toNat ++ replicate 920 0)

theorem length_longBody : longBody.length = storeObjectCrc := by
  simp only [longBody, longHead, length_append, length_leBytes, length_replicate]
  rfl

theorem length_longObject : longObject.length = 4096 := by
  simp only [longObject, length_append, length_longBody, length_leBytes, length_replicate]
  rfl

theorem checkSecureStorageKey_longObject : checkSecureStorageKey longObject = 0 :=
  MmcSec.checkSecureStorageKey_sealed _ length_longBody (take_left' (length_leBytes _))

theorem actualLen_longObject : field longObject actualLenOff = 64 := by
  have hlength : longHead.length = 96 := by
    simp only [longHead, length_append, length_leBytes, length_replicate]
  rw [field, longObject, longBody, append_assoc, actualLenOff, drop_left' hlength,
    append_assoc, take_left' (length_leBytes _), leValue_leBytes _ (by decide)]

/-- The storage with the object as its only item, under the name `k`. -/
def longState : State where
  inited := true
  mapDirty := false
  map := [107, 58, 51, 49, 55, 54] ++ replicate 4090 0
  slots := fun _ => longObject
  writes := 0

def nameK : CString := ⟨[107], fun h => absurd (List.mem_singleton.mp h) (by decide)⟩

theorem stored_longObject : Stored longState nameK longObject storeObjectSize :=
  ⟨rfl, 1, by decide +kernel, rfl⟩

/-- A buffer of 64 bytes is long enough for the object. -/
theorem longObject_safe : ∃ r,
    sunxiSecureObjectRead (fun _ => 0) longState nameK (fun _ => 0) (64 : Nat) = some r ∧
      Safe longObject 64 r :=
  (objectRead_safe_iff _ _ 64 stored_longObject length_longObject).mpr
    ⟨by decide, fun _ _ => by rw [actualLen_longObject]; decide⟩

/-- From the same object 64 bytes are copied to a buffer of 32, with success. -/
theorem objectRead_overflow : ∃ r,
    sunxiSecureObjectRead (fun _ => 0) longState nameK (fun _ => 0) 32 = some r ∧
      r.ret = 0 ∧ r.copied = 64 := by
  rw [objectRead_eq stored_longObject, if_neg (by decide), if_pos rfl,
    objectRead_accepted length_longObject, if_pos checkSecureStorageKey_longObject]
  exact ⟨_, rfl, rfl, actualLen_longObject⟩

end Brandy.SecureObject
