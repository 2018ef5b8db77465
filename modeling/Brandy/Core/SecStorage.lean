import Brandy.Core.StoreObject
import Brandy.Library.Word

/-!
# The Secure Storage Name Map

A model of `sprite/sprite_secstorage.c`. Keys are stored in numbered slots of 4096 bytes; slot 0
holds the map from names to slot numbers. In memory the map is one text buffer: an entry
`name:length` ended by NUL for every slot in use, in the order of the slots, and a NUL where the
next entry would start.

A position `buf_start` is its offset in the buffer, and the byte at the end of the buffer counts as
the NUL that the bounds tests of the source make of it. A call that would write outside the buffer,
or copy a negative number of bytes into it, has no result (`none`).

A slot write takes its outcome from the oracle `ok`, by the number of writes issued so far; a failed
write leaves the slot as it was. Slot reads succeed.

## Main definitions

* `probeNameInMap`, `fillNameInMap`, `discardNameInMap`: An entry is found, added or removed.
* `sunxiSecureStorageRead`, `sunxiSecureStorageWrite`, `sunxiSecureStorageErase`: The calls from
  outside.
-/

namespace Brandy.SecStorage

open Memory Text Word StoreObject

def mapKeyNameSize : Nat := 64

def mapKeyDataSize : Nat := 32

/-- The separator `':'`. -/
def colon : UInt8 := 58

/-- The blank `' '`. -/
def space : UInt8 := 32

/-- `SECURE_STORAGE_DUMMY_KEY_NAME`: `"reserved_after_delete"`. -/
def dummyKeyName : List UInt8 :=
  [114, 101, 115, 101, 114, 118, 101, 100, 95, 97, 102, 116, 101, 114, 95, 100, 101, 108, 101,
    116, 101]

/-- The text `sprintf` makes of `"%s:%d"`. -/
def entryText (itemName : List UInt8) (length : Int) : List UInt8 :=
  itemName ++ colon :: formatInt length

/-- The loop of `__probe_name_in_map`. A turn goes on by one byte at least, so a fuel of the buffer
    size is never used up. -/
def probeLoop (buffer : List UInt8) (itemName : CString) : Nat → Nat → Nat → Option (Nat × Int)
  | 0, _, _ => none
  | fuel + 1, start, index =>
    let bufStart := buffer.drop start
    if bufStart.headD 0 = 0 then none
    else
      let name := scan (fun b => b = colon || b = 0) mapKeyNameSize bufStart
      if mapKeyNameSize ≤ name.length then none
      else
        let length := scan (fun b => b = space || b = 0) mapKeyDataSize
          (bufStart.drop (name.length + 1))
        if bufStart.length ≤ name.length + 1 + length.length ∨ mapKeyDataSize ≤ length.length then
          none
        else if itemName.bytes = name then
          let len := s32 (strtoul length)
          if itemName.bytes = dummyKeyName ∧ len = 0 then
            -- `buf_start` has been moved behind the name already
            let start := start + (itemName.bytes.length + 1)
            probeLoop buffer itemName fuel (start + (strlen (buffer.drop start) + 1)) (index + 1)
          else some (index, len)
        else probeLoop buffer itemName fuel (start + (strlen bufStart + 1)) (index + 1)

/-- `__probe_name_in_map`: the index of a name and its `*len`. -/
def probeNameInMap (buffer : List UInt8) (itemName : CString) : Option (Nat × Int) :=
  probeLoop buffer itemName secBlkSize 0 1

/-- What `__fill_name_in_map` notes about the first dummy entry: `dummy_key_index`,
    `dummy_key_start` and `write_back_buf`. -/
structure DummyKey where
  index : Nat
  start : Nat
  writeBack : List UInt8

/-- How the loop of `__fill_name_in_map` ends: by a copy of negative length, at an entry with the
    name, or behind the last entry. -/
inductive FillScan where
  | undefined
  | found (index : Nat)
  | done (buffer : List UInt8) (start index : Nat) (dummy : Option DummyKey)

/-- The bytes behind an entry, as they are saved before the entry is replaced. -/
def writeBackBuf (buffer : List UInt8) (start : Nat) : List UInt8 :=
  padTo secBlkSize (buffer.drop start)

/-- The loop of `__fill_name_in_map`. -/
def fillLoop (buffer : List UInt8) (itemName : CString) :
    Nat → Nat → Nat → Option DummyKey → FillScan
  | 0, start, index, dummy => .done buffer start index dummy
  | fuel + 1, start, index, dummy =>
    let bufStart := buffer.drop start
    if bufStart.headD 0 = 0 then .done buffer start index dummy
    else
      let name := scan (fun b => b = colon) mapKeyNameSize bufStart
      if bufStart.length ≤ name.length ∨ mapKeyNameSize ≤ name.length then
        -- dirty data: the map is emptied, but a dummy entry stays noted
        .done (List.replicate secBlkSize 0) 0 1 dummy
      else if name = itemName.bytes then .found index
      else
        let next := start + (strlen bufStart + 1)
        if name = dummyKeyName ∧ dummy.isNone then
          if buffer.length < next then .undefined
          else fillLoop buffer itemName fuel next (index + 1)
            (some ⟨index, start, writeBackBuf buffer next⟩)
        else fillLoop buffer itemName fuel next (index + 1) dummy

/-- An entry printed at `start`, and the saved bytes copied behind it. -/
def replaceEntry (buffer : List UInt8) (start : Nat) (text writeBack : List UInt8) :
    Option (List UInt8) := do
  let buffer ← patch buffer start (text ++ [0])
  let writeBackStart := start + (strlen (buffer.drop start) + 1)
  patch buffer writeBackStart (writeBack.take (secBlkSize - writeBackStart))

/-- `__fill_name_in_map`: the index given to a name, or `-1`, and the map. -/
def fillNameInMap (buffer : List UInt8) (itemName : CString) (length : Int) :
    Option (Int × List UInt8) :=
  match fillLoop buffer itemName secBlkSize 0 1 none with
  | .undefined => none
  | .found index => some (index, buffer)
  | .done buffer start index none =>
    if 32 ≤ index then some (-1, buffer)
    else (patch buffer start (entryText itemName.bytes length ++ [0])).map
      (fun buffer => (index, buffer))
  | .done buffer _ _ (some dummy) =>
    (replaceEntry buffer dummy.start (entryText itemName.bytes length) dummy.writeBack).map
      (fun buffer => (dummy.index, buffer))

/-- The loop of `__discard_name_in_map`. -/
def discardLoop (buffer : List UInt8) (itemName : CString) :
    Nat → Nat → Nat → Option (Int × List UInt8)
  | 0, _, _ => some (-1, buffer)
  | fuel + 1, start, index =>
    let bufStart := buffer.drop start
    if bufStart.headD 0 = 0 then some (-1, buffer)
    else
      let name := scan (fun b => b = colon) mapKeyNameSize bufStart
      if bufStart.length ≤ name.length ∨ mapKeyNameSize ≤ name.length then some (-1, buffer)
      else
        let next := start + (strlen bufStart + 1)
        if name = itemName.bytes then
          if buffer.length < next then none
          else (replaceEntry buffer start (entryText dummyKeyName 0)
            (writeBackBuf buffer next)).map (fun buffer => (index, buffer))
        else discardLoop buffer itemName fuel next (index + 1)

/-- `__discard_name_in_map`: the index the name had, or `-1`, and the map. -/
def discardNameInMap (buffer : List UInt8) (itemName : CString) : Option (Int × List UInt8) :=
  discardLoop buffer itemName secBlkSize 0 1

/-- `secure_storage_inited`, `map_dirty`, `secure_storage_map`, the slots, and the number of slot
    writes issued. -/
structure State where
  inited : Bool
  mapDirty : Bool
  map : List UInt8
  slots : Nat → List UInt8
  writes : Nat

def sunxiSecstorageWrite (ok : Nat → Bool) (st : State) (item : Nat) (buf : List UInt8) :
    Int × State :=
  if ok st.writes then
    (0, { st with
      slots := fun i => if i = item then buf else st.slots i
      writes := st.writes + 1 })
  else (-1, { st with writes := st.writes + 1 })

/-- The map `sunxi_secure_storage_init` works with after it read `buffer` from slot 0: cleared when
    it fails its check and starts like an empty one. -/
def loadMap (buffer : List UInt8) : List UInt8 :=
  if checkSecureStorageMap buffer ≠ 0 ∧ (buffer.headD 0 = 0xff ∨ buffer.headD 0 = 0) then
    List.replicate secBlkSize 0
  else buffer

def sunxiSecureStorageInit (st : State) : Int × State :=
  if st.inited then (0, st)
  else (0, { st with map := loadMap (st.slots 0), inited := true })

def sunxiSecureStorageExit (ok : Nat → Bool) (st : State) : Int × State :=
  if !st.inited then (-1, st)
  else if st.mapDirty then
    let (ret, st) := sunxiSecstorageWrite ok { st with map := sealMap st.map } 0 (sealMap st.map)
    if ret < 0 then (-1, st)
    else (0, { st with mapDirty := false, inited := false })
  else (0, { st with inited := false })

def sunxiSecureStorageProbe (st : State) (itemName : CString) : Int :=
  if !st.inited then -1
  else if (probeNameInMap st.map itemName).isNone then -1
  else 0

/-- `sunxi_secure_storage_read`: the error code, or the bytes copied and `*data_len`. A negative
    count copies nothing here; no map that parses into entries has one in it. -/
def sunxiSecureStorageRead (st : State) (itemName : CString) (bufferLen : Int) :
    Except Int (List UInt8 × Int) :=
  if !st.inited then .error (-1)
  else
    match probeNameInMap st.map itemName with
    | none => .error (-2)
    | some (index, lenInStore) =>
      let n := if bufferLen < lenInStore then bufferLen else lenInStore
      .ok ((st.slots index).take n.toNat, lenInStore)

def sunxiSecureStorageEraseDataOnly (ok : Nat → Bool) (st : State) (itemName : CString) :
    Int × State :=
  if !st.inited then (-1, st)
  else
    match probeNameInMap st.map itemName with
    | none => (-2, st)
    | some (index, _) =>
      let (ret, st) := sunxiSecstorageWrite ok st index (List.replicate secBlkSize 0xff)
      if ret < 0 then (-1, st) else (0, { st with mapDirty := true })

/-- The end of `sunxi_secure_storage_write`, when the slot of the key is known. `buffer` is what the
    caller's buffer holds. -/
def storeData (ok : Nat → Bool) (st : State) (index : Nat) (buffer : List UInt8)
    (length : Int) : Option (Int × State) :=
  if (secBlkSize : Int) < length then some (-1, st)
  else if length < 0 then none
  else
    let (ret, st) := sunxiSecstorageWrite ok st index
      (padTo secBlkSize (buffer.take length.toNat))
    if ret < 0 then some (-1, st) else some (0, { st with mapDirty := true })

def sunxiSecureStorageWrite (ok : Nat → Bool) (st : State) (itemName : CString)
    (buffer : List UInt8) (length : Int) : Option (Int × State) :=
  if !st.inited then some (-1, st)
  else
    match probeNameInMap st.map itemName with
    | none =>
      match fillNameInMap st.map itemName length with
      | none => none
      | some (index, map) =>
        if index < 0 then some (-1, { st with map := map })
        else storeData ok { st with map := map } index.toNat buffer length
    | some (index, len) =>
      if len ≠ length then some (-1, st)
      else
        let (ret, st) := sunxiSecureStorageEraseDataOnly ok st itemName
        if ret < 0 then some (-1, st) else storeData ok st index buffer length

def sunxiSecureStorageErase (ok : Nat → Bool) (st : State) (itemName : CString) :
    Option (Int × State) :=
  if !st.inited then some (-1, st)
  else
    match discardNameInMap st.map itemName with
    | none => none
    | some (index, map) =>
      if index < 0 then some (-2, { st with map := map })
      else
        let (ret, st) := sunxiSecstorageWrite ok { st with map := map } index.toNat
          (List.replicate secBlkSize 0xff)
        if ret < 0 then some (-1, st) else some (0, { st with mapDirty := true })

def sunxiSecureStorageEraseAll (ok : Nat → Bool) (st : State) : Int × State :=
  let st := (sunxiSecureStorageInit st).2
  let (ret, st) := sunxiSecstorageWrite ok { st with map := List.replicate secBlkSize 0 } 0
    (List.replicate secBlkSize 0)
  if ret < 0 then (-1, st) else (0, st)

end Brandy.SecStorage
