import Mathlib.Data.List.Basic

/-!
# The Keybox

A model of the trust chain of Android from `board/sunxi/sunxi_keybox.c`. What a key that had to be
encrypted again leaves in the secure storage is not modelled.

## Main definitions

* `tryReencryptAndInstall`: The installation of one key.
* `androidTrustChainLoadCb`, `loadAll`: The callback, and a number of calls of it.
-/

namespace Brandy.Keybox

/-- What the secure storage and the secure OS return for the installation of a key, and whether the
    object has its name. -/
structure Answers where
  objectUp : Int
  keyboxStore : Int
  sameName : Bool
  objectRead : Int
  storeAgain : Int

def tryReencryptAndInstall (a : Answers) : Int :=
  if a.objectRead ≠ 0 then a.objectRead else if a.storeAgain ≠ 0 then -1 else 0

def installSuccessAfterReenc : Int := 1

def defaultKeyboxInstallation (a : Answers) : Int :=
  if a.objectUp ≠ 0 then -1
  else if a.keyboxStore ≠ 0 then
    if a.sameName = false ∧ tryReencryptAndInstall a = 0 then installSuccessAfterReenc else -1
  else 0

def androidTrustChainMap : List String :=
  ["ec_key", "ec_cert1", "ec_cert2", "ec_cert3", "rsa_key", "rsa_cert1", "rsa_cert2", "rsa_cert3"]

inductive InstallStatus where
  | installing
  | installFailed
  deriving DecidableEq

/-- The static variables of the callback and whether `android_trust_chain` is `true`, with the
    indices of the map that were read and of the keys installed. -/
structure Chain where
  idx : Nat
  status : InstallStatus
  env : Bool
  read : List Nat
  installed : List Nat

def androidTrustChainLoadCb (a : Answers) (s : Chain) : Int × Chain :=
  match s.status with
  | .installFailed => (-2, s)
  | .installing =>
    let ret := defaultKeyboxInstallation a
    let s := { s with
      read := s.read ++ [s.idx]
      installed := if ret = 0 ∨ ret = installSuccessAfterReenc then s.installed ++ [s.idx]
        else s.installed }
    if ret ≠ 0 then (-2, { s with status := .installFailed })
    else
      let last := s.idx == androidTrustChainMap.length - 1
      (0, { s with env := s.env || last, idx := s.idx + 1 })

/-- The callback is called again and again. -/
def loadAll (calls : List Answers) (s : Chain) : Chain :=
  calls.foldl (fun s a => (androidTrustChainLoadCb a s).2) s

end Brandy.Keybox
