import Brandy.Library.Text

/-!
# The Two Systems of a Board

A model of `board/sunxi/sunxi_switch_system.c`. A board may have two systems, and four variables of
the environment say which one is booted: `boot_partition` and `root_partition`, which the boot
command uses, `systemAB_now`, the system these belong to, and `systemAB_next`, the one that is
wanted.

The environment is loaded when the board starts and changed in memory. `env_save` stores it, and
nobody looks at its result. The boot counter is not kept.

`__switch_systemAB` compares `systemAB_damage` and `systemAB_now` with `strcmp` before it asks
whether they are set. Without one of them it reads through a null pointer, and there is no result.

## Main definitions

* `Env`, `St`: The variables, in memory and as they are stored.
* `autoSwitchSystem`, `damageSwitchSystem`: The two switches.
* `boot`: One boot of the board, with the switch at its start and the one after a failure.
-/

namespace Brandy.SwitchSystem

open Text

inductive System where
  | A
  | B
  deriving DecidableEq

def System.other : System → System
  | .A => .B
  | .B => .A

/-- The value of a variable. Setting a variable to the empty string deletes it. -/
abbrev Value := { s : CString // s.bytes ≠ [] }

/-- The string that stands for a system. -/
def System.name : System → Value
  | .A => ⟨⟨[65], by decide⟩, by decide⟩
  | .B => ⟨⟨[66], by decide⟩, by decide⟩

/-- The two comparisons of a string with `"A"` and `"B"`. -/
def ofName (v : Value) : Option System :=
  if v = System.A.name then some .A else if v = System.B.name then some .B else none

/-- The variables of the environment that are used. -/
structure Env where
  systemA : Option Value
  systemB : Option Value
  rootfsA : Option Value
  rootfsB : Option Value
  systemABNow : Option Value
  systemABNext : Option Value
  systemABDamage : Option Value
  bootPartition : Option Value
  rootPartition : Option Value
  deriving DecidableEq

def Env.system (env : Env) : System → Option Value
  | .A => env.systemA
  | .B => env.systemB

def Env.rootfs (env : Env) : System → Option Value
  | .A => env.rootfsA
  | .B => env.rootfsB

/-- The environment in memory, and as it is stored. -/
structure St where
  env : Env
  saved : Env

/-- `env_save`, which may fail. -/
def envSave (ok : Bool) (env saved : Env) : St := ⟨env, if ok then env else saved⟩

/-- `__check_systemAB`. -/
def checkSystemAB (env : Env) : Int :=
  if env.systemA = none ∨ env.rootfsA = none then -1
  else if env.systemB = none ∨ env.rootfsB = none then -1
  else 0

/-- `__switch_systemAB`. Nothing is done unless the other system is selected. -/
def switchSystemAB (ok : Bool) (s : St) (system : Value) : Option (Int × St) :=
  match ofName system with
  | none => some (-1, s)
  | some x =>
    match s.env.systemABDamage, s.env.systemABNow with
    -- the comparison with `systemAB_damage` only decides about a warning
    | some _, some now =>
      if now = x.other.name then
        let env := { s.env with
          bootPartition := s.env.system x
          rootPartition := s.env.rootfs x
          systemABNow := some x.name }
        some (0, envSave ok env s.saved)
      else some (0, s)
    -- `strcmp(NULL, ..)`, also where `!systemAB_now` is asked for right behind it
    | _, _ => none

/-- `sunxi_auto_switch_system`. -/
def autoSwitchSystem (ok : Bool) (s : St) : Option (Int × St) :=
  match s.env.systemABNext.bind ofName with
  | none => some (0, s)
  | some x =>
    if checkSystemAB s.env ≠ 0 then some (-1, s)
    else (switchSystemAB ok s x.name).map fun r => (if r.1 ≠ 0 then -1 else 0, r.2)

/-- `sunxi_damage_switch_system`. Every string but `"A"` stands for system B. The environment is
    saved by `__switch_systemAB`, and at the end. -/
def damageSwitchSystem (ok ok' : Bool) (s : St) : Option (Int × St) :=
  match s.env.systemABNext with
  | none => some (-1, s)
  | some next =>
    if checkSystemAB s.env ≠ 0 then some (-1, s)
    else
      let damaged : System := if next = System.A.name then .A else .B
      (switchSystemAB ok s damaged.other.name).map fun (ret, s) =>
        if ret ≠ 0 then (-1, s)
        else
          let env := { s.env with
            systemABNext := some damaged.other.name
            systemABDamage := some damaged.name }
          (0, envSave ok' env s.saved)

/-- A boot: the new value of `systemAB_next` if it was changed before, whether the boot fails, and
    which calls of `env_save` succeed. -/
structure Boot where
  change : Option (Option Value)
  failed : Bool
  saves : Nat → Bool

/-- The board starts with the stored environment. -/
def Boot.start (b : Boot) (s : St) : St :=
  let saved := { s.saved with systemABNext := b.change.getD s.saved.systemABNext }
  ⟨saved, saved⟩

/-- The state in which the kernel is started. -/
def Boot.started (b : Boot) (s : St) : Option St :=
  (autoSwitchSystem (b.saves 0) (b.start s)).map (·.2)

/-- A boot, with the result of `sunxi_damage_switch_system`, or 0 if it is not called. Reading
    through a null pointer gives no result, and what is stored stays. -/
def boot (s : St) (b : Boot) : Option Int × St :=
  match b.started s with
  | none => (none, b.start s)
  | some s =>
    if b.failed then
      match damageSwitchSystem (b.saves 1) (b.saves 2) s with
      | none => (none, s)
      | some (ret, s) => (some ret, s)
    else (some 0, s)

end Brandy.SwitchSystem
