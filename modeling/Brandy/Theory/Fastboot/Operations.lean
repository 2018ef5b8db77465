import Brandy.Core.Fastboot

/-!
# Operations and Their Outcomes

How an operation of a handler ends, by the outcome that the world has for its number, and the boards
on which the results about fastboot are tried out.

## Main definitions

* `stores`: The flag gets into the secure storage.
* `plainWorld`, `lockedBoard`: A board with nothing but fastboot, and a locked state of it.

## Theorems

* `operate_power`, `succeeds_power`: An operation while there is power.
* `not_startsWith`: Which commands exclude each other.
-/

namespace Brandy.Fastboot

open Process Text List

section

variable (w : World) {s : St}

/-- The flag gets into the secure storage when it is written from operation `k` on. -/
def stores (k : Nat) : Bool :=
  (w.outcome k).power && (w.outcome k).ok && (w.outcome (k + 1)).power &&
    ((w.outcome (k + 1)).ok || (w.outcome (k + 1)).took)

theorem operate_power (h : (w.outcome s.ops).power = true) :
    operate w s = .ret (w.outcome s.ops) { s with ops := s.ops + 1 } := if_pos h

theorem operate_lost (h : ¬ (w.outcome s.ops).power = true) :
    operate w s = .gone .powerLoss s := if_neg h

theorem succeeds_power (h : (w.outcome s.ops).power = true) :
    succeeds w s = .ret (w.outcome s.ops).ok { s with ops := s.ops + 1 } := by
  unfold succeeds
  rw [bind_run, operate_power w h]
  rfl

theorem succeeds_lost (h : ¬ (w.outcome s.ops).power = true) :
    succeeds w s = .gone .powerLoss s := by
  unfold succeeds
  rw [bind_run, operate_lost w h]
  rfl

end

/-- A buffer starts with only one of two literals when neither is the start of the other. -/
theorem not_startsWith {buffer : List UInt8} {a b : String} (ha : startsWith buffer a = true)
    (hab : ¬ (ascii a <+: ascii b ∨ ascii b <+: ascii a) := by decide) :
    ¬ startsWith buffer b = true := by
  intro hb
  have hpa := isPrefixOf_iff_prefix.mp ha
  have hpb := isPrefixOf_iff_prefix.mp hb
  exact hab ( prefix_or_prefix_of_prefix hpa hpb)

/-- Every operation succeeds. -/
def fine : Outcome where
  power := true
  ok := true
  took := true
  junk := fun _ => 0

/-- A board with nothing but fastboot in its build. -/
def plainWorld (outcome : Nat → Outcome) : World where
  configUboot := false
  configBoot0 := false
  configMbr := false
  configAvb := false
  lastPartitionName := ascii "UDISK"
  abSystem := id
  logicOffset := 0
  securityStatus := true
  bootfileToc := true
  outcome := outcome
  mbrTable := fun _ => []
  bootLockflag := fun _ => 0
  bootMem := fun _ _ => 0

/-- A partition of one sector. -/
def oneSector (name : String) (start : Nat) : DiskPartition := ⟨ascii name, start, 1, []⟩

/-- A secure board without a flag, with all bytes of its flash 1. -/
def lockedBoard (parts : List DiskPartition) : St where
  status := .idle
  rxReadyForData := false
  rxReqBuffer := []
  dataFlag := false
  received := 0
  tryToRecv := 0
  allDownloadBytes := 0
  securemode := secureModeWithSecureos
  lockflag := sunxiLocked
  parts := parts
  mem := fun _ => 0
  statics := ⟨0, .unknown, 0, 0, 0, 0⟩
  flash := ⟨fun _ => 1, fun _ => false⟩
  statusFlag := none
  deviceUnlock := none
  ops := 0
  log := []

/-- The partitions that unlocking is about. -/
def lockParts : List DiskPartition :=
  [oneSector "UDISK" 1, oneSector "metadata" 2, oneSector "frp" 3]

/-- Operation `k` fails. -/
def failAt (k i : Nat) : Outcome := { fine with ok := i ≠ k, took := i ≠ k }

end Brandy.Fastboot
