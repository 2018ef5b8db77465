import Brandy.Core.SecStorage
import Brandy.Library.Buffer

/-!
# Secure Objects

Reading of `sprite/sprite_secure_object.c`. A secure object is a `store_object_t`, kept under a name
in the secure storage. The number of bytes that the copy of the payload moves is part of the result.
Behind the array of the function is the rest of its stack. For a negative length in the name map the
storage layer copies beyond the array, and the call has no result (`none`).

## Main definitions

* `unwrapSecureObject`: The payload is copied to the caller's buffer.
* `sunxiSecureObjectRead`: The object is fetched to an array and unwrapped.
-/

namespace Brandy.SecureObject

open Text Word StoreObject SecStorage

/-- `sizeof(store_object_t)`. -/
def storeObjectSize : Nat := storeObjectCrc + 4

/-- `MAX_STORE_LEN`. -/
def maxStoreLen : Nat := 0xc00

/-- Where `actual_len` is. -/
def actualLenOff : Nat := 96

/-- Where `data` is. -/
def dataOff : Nat := 100

/-- The return code, the caller's buffer, `*retLen`, and the bytes that were copied. -/
structure Unwrapped where
  ret : Int
  payload : Buffer
  retLen : Option Int
  copied : Nat

def unwrapSecureObject (src : Buffer) (len : Int) (payload : Buffer) : Unwrapped :=
  let obj := src.bytes storeObjectSize
  if len ≠ storeObjectSize then ⟨-1, payload, none, 0⟩
  else if field obj 0 ≠ storeObjectMagic then ⟨-1, payload, none, 0⟩
  else if field obj storeObjectCrc ≠ (crc32 0 (obj.take storeObjectCrc)).toNat then
    ⟨-1, payload, none, 0⟩
  else
    let actualLen := field obj actualLenOff
    ⟨0, Buffer.memcpy payload 0 src dataOff actualLen, some (s32 actualLen), actualLen⟩

/-- `sunxi_secure_object_read`. It does not look at the length of the caller's buffer. -/
def sunxiSecureObjectRead (stack : Buffer) (st : State) (itemName : CString) (buffer : Buffer)
    (_bufferLen : Int) : Option Unwrapped :=
  match sunxiSecureStorageRead st itemName 4096 with
  | .error _ => some ⟨-1, buffer, none, 0⟩
  | .ok (bytes, retLen) =>
    if retLen < 0 then none
    else
      some (unwrapSecureObject (fun i => if i < 4096 then bytes.getD i 0 else stack i)
        retLen buffer)

end Brandy.SecureObject
