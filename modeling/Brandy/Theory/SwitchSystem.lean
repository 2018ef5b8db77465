import Brandy.Core.SwitchSystem
import Brandy.Library.Simulation

/-!
# Leaving a Failed System

When a boot fails, `sunxi_damage_switch_system` takes the system that `systemAB_next` names for the
damaged one. The switch at the start has selected that system, unless `systemAB_next` is some other
string: then the damage switch takes system B for the damaged one all the same. With system A
selected it finds nothing to do, and says that it has succeeded.

## Main definitions

* `Ready`: System `x` is selected, and the environments are complete.
* `Named`: `systemAB_next` names a system, or system B is selected.
* `Matched`: The partitions belong to the selected system.

## Theorems

* `boot_ready`, `boot_matched`: What one boot keeps.
* `damage_leaves_failed`: A boot that fails leaves the failed system.
* `kernel_of_selected`: The kernel is started from the selected system.
-/

namespace Brandy.SwitchSystem

open Text Simulation Option

/-- Both partitions are those of a system. -/
def Belongs (env : Env) (x : System) : Prop :=
  env.bootPartition = env.system x ∧ env.rootPartition = env.rootfs x

/-- The variables of both systems are set. -/
def Complete (env : Env) : Prop := ∀ x, env.system x ≠ none ∧ env.rootfs x ≠ none

/-- What the switches need: the variables of both systems and `systemAB_damage` are set, and one
    system is selected. -/
structure Stored (env : Env) : Prop where
  complete : Complete env
  damage : env.systemABDamage ≠ none
  now : ∃ x : System, env.systemABNow = some x.name

/-- System `x` is selected in memory, and both environments have what the switches need. -/
structure Ready (s : St) (x : System) : Prop where
  env : Stored s.env
  now : s.env.systemABNow = some x.name
  saved : Stored s.saved

theorem ofName_name (x : System) : ofName x.name = some x := by
  cases x <;> rfl

theorem ofName_eq_some {v : Value} {x : System} (h : ofName v = some x) : v = x.name := by
  unfold ofName at h
  split_ifs at h with hA hB
  · rw [hA, ← some.inj h]
  · rw [hB, ← some.inj h]

theorem checkSystemAB_complete {env : Env} (h : Complete env) : checkSystemAB env = 0 := by
  have hA : ¬ (env.systemA = none ∨ env.rootfsA = none) := not_or.mpr (h .A)
  have hB : ¬ (env.systemB = none ∨ env.rootfsB = none) := not_or.mpr (h .B)
  rw [checkSystemAB, if_neg hA, if_neg hB]

/-- The environment behind a switch to a system. -/
def switched (env : Env) (x : System) : Env :=
  { env with
    bootPartition := env.system x
    rootPartition := env.rootfs x
    systemABNow := some x.name }

section

variable {s : St} {x y : System}

theorem Ready.envSave (h : Ready s y) (env : Env) (henv : Stored env)
    (hnow : env.systemABNow = some x.name) (ok : Bool) :
    Ready (SwitchSystem.envSave ok env s.saved) x := by
  cases ok with
  | false => exact ⟨henv, hnow, h.saved⟩
  | true => exact ⟨henv, hnow, henv⟩

/-- Afterwards the system is selected. Its partitions are used unless it was selected before. -/
theorem switchSystemAB_ready (h : Ready s y) (ok : Bool) (x : System) :
    ∃ s', switchSystemAB ok s x.name = some (0, s') ∧ Ready s' x ∧
      s'.env = if y = x then s.env else switched s.env x := by
  rcases Option.ne_none_iff_exists'.mp h.env.damage with ⟨d, hd⟩
  unfold switchSystemAB
  rw [ofName_name, h.now, hd]
  dsimp only
  by_cases hxy : y = x
  · subst hxy
    rw [if_neg (by cases y <;> decide), if_pos rfl]
    exact ⟨s, rfl, h, rfl⟩
  · rw [if_pos (by revert hxy; cases x <;> cases y <;> decide), if_neg hxy]
    exact ⟨_, rfl, h.envSave (switched s.env x) ⟨h.env.complete, h.env.damage, x, rfl⟩ rfl ok, rfl⟩

/-- The switch at the start: to the system that is wanted, if there is one. -/
theorem autoSwitchSystem_ready (h : Ready s y) (ok : Bool) :
    ∃ s', autoSwitchSystem ok s = some (0, s') ∧
      Ready s' ((s.env.systemABNext.bind ofName).getD y) ∧
      s'.env.systemABNext = s.env.systemABNext ∧
      ((s.env.systemABNext.bind ofName).getD y = y → s'.env = s.env) := by
  unfold autoSwitchSystem
  cases s.env.systemABNext.bind ofName with
  | none => exact ⟨s, rfl, h, rfl, fun _ => rfl⟩
  | some x =>
    rcases switchSystemAB_ready h ok x with ⟨s', hs', hready, henv⟩
    simp only [checkSystemAB_complete h.env.complete, ne_eq, not_true_eq_false, if_false,
      getD_some, hs', map_some]
    refine ⟨s', rfl, hready, ?_, fun hxy => ?_⟩
    · rw [henv]
      split <;> rfl
    · rw [henv, if_pos hxy.symm]

/-- The system that the damage switch takes for the damaged one. -/
def damaged (next : Value) : System := if next = System.A.name then .A else .B

/-- The damage switch: to the system that is not taken for the damaged one. -/
theorem damageSwitchSystem_ready (h : Ready s y) (ok ok' : Bool) {next : Value}
    (hnext : s.env.systemABNext = some next) :
    ∃ s', damageSwitchSystem ok ok' s = some (0, s') ∧ Ready s' (damaged next).other ∧
      s'.env = { (if y = (damaged next).other then s.env
        else switched s.env (damaged next).other) with
        systemABNext := some (damaged next).other.name
        systemABDamage := some (damaged next).name } ∧
      (ok' = true → s'.saved = s'.env) := by
  rcases switchSystemAB_ready h ok (damaged next).other with ⟨s', hs', hready, henv⟩
  rw [damaged] at hs' hready henv ⊢
  unfold damageSwitchSystem
  simp only [hnext, checkSystemAB_complete h.env.complete, ne_eq, not_true_eq_false, if_false, hs',
    map_some]
  refine ⟨_, rfl, hready.envSave _ ?_ ?_ ok', ?_, fun hok => ?_⟩
  · exact ⟨hready.env.complete, some_ne_none _, _, hready.now⟩
  · exact hready.now
  · rw [← henv]
    rfl
  · rw [hok]
    rfl

end

theorem Boot.start_ready {s : St} (b : Boot) (h : Stored s.saved) : ∃ x, Ready (b.start s) x := by
  have hstart : Stored (b.start s).saved := ⟨h.complete, h.damage, h.now⟩
  rcases h.now with ⟨x, hnow⟩
  exact ⟨x, hstart, hnow, hstart⟩

/-- The kernel is started. -/
theorem Boot.started_ready {s : St} (b : Boot) (h : Stored s.saved) :
    ∃ s' x, b.started s = some s' ∧ Ready s' x := by
  rcases b.start_ready h with ⟨y, hy⟩
  rcases autoSwitchSystem_ready hy (b.saves 0) with ⟨s', hs', hready, -⟩
  exact ⟨s', _, by rw [Boot.started, hs']; rfl, hready⟩

theorem boot_ready {s : St} (b : Boot) (h : Stored s.saved) : Stored (boot s b).2.saved := by
  rcases b.started_ready h with ⟨s', x, hs', hready⟩
  unfold boot
  rw [hs']
  dsimp only
  split
  · cases hnext : s'.env.systemABNext with
    | none =>
      rw [damageSwitchSystem, hnext]
      exact hready.saved
    | some next =>
      rcases damageSwitchSystem_ready hready (b.saves 1) (b.saves 2) hnext with ⟨s₁, hs₁, h₁, -⟩
      rw [hs₁]
      exact h₁.saved
  · exact hready.saved

theorem run_ready (boots : List Boot) {s : St} (h : Stored s.saved) :
    Stored (after boot s boots).saved := by
  induction boots generalizing s with
  | nil => exact h
  | cons b boots ih => exact ih (boot_ready b h)

/-- `systemAB_next` names a system, or system B is selected. -/
def Named (env : Env) : Prop :=
  env.systemABNext.bind ofName ≠ none ∨ env.systemABNow = some System.B.name

/-- Under this condition the system taken for the damaged one is the selected one. -/
theorem damaged_of_named {s : St} {y : System} {next : Value} (h : Ready s y) (hnamed : Named s.env)
    (hnext : s.env.systemABNext = some next) :
    (s.env.systemABNext.bind ofName).getD y = damaged next := by
  unfold Named at hnamed
  rw [h.now, hnext, bind_some] at hnamed
  rw [hnext, bind_some]
  unfold ofName damaged at *
  split_ifs at hnamed ⊢
  · rfl
  · rfl
  · have hy := some.inj (hnamed.resolve_left (not_not.mpr rfl))
    revert hy
    cases y <;> decide

/-- After any boots, a boot that fails leaves the system that was selected when
    `sunxi_damage_switch_system` succeeds. The next boot stays there if the environment could be
    saved and nobody asks for the failed system. -/
theorem damage_leaves_failed (s : St) (hs : Stored s.saved) (boots : List Boot) (b : Boot)
    (hfailed : b.failed = true) (hnamed : Named (b.start (after boot s boots)).env)
    (hret : (boot (after boot s boots) b).1 = some 0) :
    ∃ s' x, b.started (after boot s boots) = some s' ∧ s'.env.systemABNow = some (System.name x) ∧
      Belongs (boot (after boot s boots) b).2.env x.other ∧
      ∀ b' : Boot, b.saves 2 = true → b'.change ≠ some (some x.name) →
        ∃ t, b'.started (boot (after boot s boots) b).2 = some t ∧ Belongs t.env x.other := by
  have hstored := run_ready boots hs
  generalize after boot s boots = s at *
  rcases b.start_ready hstored with ⟨y, hy⟩
  rcases autoSwitchSystem_ready hy (b.saves 0) with ⟨s', hs', hstarted, hkeep, -⟩
  have hrun : b.started s = some s' := by rw [Boot.started, hs']; rfl
  unfold boot at hret ⊢
  rw [hrun] at hret ⊢
  dsimp only at hret ⊢
  rw [if_pos hfailed] at hret ⊢
  cases hnext : (b.start s).env.systemABNext with
  | none =>
    rw [damageSwitchSystem, hkeep, hnext] at hret
    cases hret
  | some next =>
    rw [damaged_of_named hy hnamed hnext] at hstarted
    rw [hnext] at hkeep
    rcases damageSwitchSystem_ready hstarted (b.saves 1) (b.saves 2) hkeep with
      ⟨r, hr, hready, henv, hsaved⟩
    rw [hr]
    dsimp only
    generalize damaged next = d at *
    rw [if_neg (by cases d <;> decide)] at henv
    have hbelongs : Belongs r.env d.other := by
      rw [henv]
      exact ⟨rfl, rfl⟩
    refine ⟨s', d, rfl, hstarted.now, hbelongs, fun b' hok hchange => ?_⟩
    -- the next boot starts in the other system, and that one is wanted, or none
    have hstart : Ready (b'.start r) d.other := by
      have henv' : Stored (b'.start r).saved :=
        ⟨hready.saved.complete, hready.saved.damage, hready.saved.now⟩
      refine ⟨henv', ?_, henv'⟩
      rw [Boot.start, hsaved hok]
      exact hready.now
    have hstay : ((b'.start r).env.systemABNext.bind ofName).getD d.other = d.other := by
      rw [Boot.start, hsaved hok, henv]
      rcases hc : b'.change with - | - | next'
      · exact congrArg (·.getD d.other) (ofName_name d.other)
      · rfl
      · cases hx : ofName next' with
        | none => exact congrArg (·.getD d.other) hx
        | some x =>
          rw [hc, ofName_eq_some hx] at hchange
          have hne : x ≠ d := fun heq => hchange (by rw [heq])
          refine (congrArg (·.getD d.other) hx).trans ?_
          revert hne
          cases x <;> cases d <;> decide
    rcases autoSwitchSystem_ready hstart (b'.saves 0) with ⟨t, ht, -, -, hsame⟩
    refine ⟨t, by rw [Boot.started, ht]; rfl, ?_⟩
    rw [hsame hstay, Boot.start, hsaved hok]
    exact hbelongs

/-- The partitions belong to the system that is selected, if one is. -/
def Matching (env : Env) : Prop := ∀ x : System, env.systemABNow = some x.name → Belongs env x

/-- So they do in memory and in the stored environment. -/
def Matched (s : St) : Prop := Matching s.env ∧ Matching s.saved

theorem matched_envSave {env saved : Env} (h : Matching env) (hsaved : Matching saved) (ok : Bool) :
    Matched (envSave ok env saved) := by
  cases ok with
  | false => exact ⟨h, hsaved⟩
  | true => exact ⟨h, h⟩

section

variable {s : St} (h : Matched s)

include h

/-- All three variables are set at once, and stored at once. -/
theorem matched_switchSystemAB {ok : Bool} {system : Value} {r : Int × St}
    (hr : switchSystemAB ok s system = some r) : Matched r.2 := by
  unfold switchSystemAB at hr
  split at hr
  · rw [← some.inj hr]
    exact h
  · rename_i x _
    split at hr
    · split_ifs at hr
      · rw [← some.inj hr]
        refine matched_envSave (fun y hy => ?_) h.2 ok
        have hxy : ofName x.name = ofName y.name := congrArg ofName (some.inj hy)
        rw [ofName_name, ofName_name] at hxy
        obtain rfl := some.inj hxy
        exact ⟨rfl, rfl⟩
      · rw [← some.inj hr]
        exact h
    · cases hr

theorem matched_autoSwitchSystem {ok : Bool} {r : Int × St} (hr : autoSwitchSystem ok s = some r) :
    Matched r.2 := by
  unfold autoSwitchSystem at hr
  split at hr
  · rw [← some.inj hr]
    exact h
  · split_ifs at hr
    · rw [← some.inj hr]
      exact h
    · rcases map_eq_some_iff.mp hr with ⟨q, hq, rfl⟩
      exact (matched_switchSystemAB h hq :)

theorem matched_damageSwitchSystem {ok ok' : Bool} {r : Int × St}
    (hr : damageSwitchSystem ok ok' s = some r) : Matched r.2 := by
  unfold damageSwitchSystem at hr
  split at hr
  · rw [← some.inj hr]
    exact h
  · rename_i next _
    dsimp only at hr
    generalize (if next = System.A.name then System.A else System.B) = d at hr
    split_ifs at hr
    · rw [← some.inj hr]
      exact h
    · rcases map_eq_some_iff.mp hr with ⟨⟨ret, q⟩, hq, rfl⟩
      have hswitch := matched_switchSystemAB h hq
      dsimp only
      split
      · exact hswitch
      · refine matched_envSave (fun x hx => ?_) hswitch.2 ok'
        exact hswitch.1 x hx

end

theorem Boot.started_matched {s s' : St} {b : Boot} (h : Matching s.saved)
    (hs' : b.started s = some s') : Matched s' := by
  have hstart : Matched (b.start s) := ⟨h, h⟩
  rcases map_eq_some_iff.mp hs' with ⟨r, hr, rfl⟩
  exact matched_autoSwitchSystem hstart hr

theorem boot_matched {s : St} (b : Boot) (h : Matching s.saved) : Matching (boot s b).2.saved := by
  unfold boot
  cases hs' : b.started s with
  | none => exact h
  | some s' =>
    have hstarted := Boot.started_matched h hs'
    dsimp only
    split
    · cases hr : damageSwitchSystem (b.saves 1) (b.saves 2) s' with
      | none => exact hstarted.2
      | some r => exact (matched_damageSwitchSystem hstarted hr).2
    · exact hstarted.2

/-- A board that has what the switches need, with the partitions of the selected system stored,
    starts the kernel in every boot, and with the partitions of the system selected then, whatever
    was asked for, whichever boots failed and saves were lost. -/
theorem kernel_of_selected (s : St) (hs : Stored s.saved) (h : Matching s.saved) (boots : List Boot)
    (b : Boot) :
    (∃ s' x, b.started (after boot s boots) = some s' ∧ s'.env.systemABNow = some (System.name x) ∧
      Belongs s'.env x) ∧ Matching (boot (after boot s boots) b).2.saved := by
  have hrun : Matching (after boot s boots).saved := by
    clear hs
    induction boots generalizing s with
    | nil => exact h
    | cons b boots ih => exact ih _ (boot_matched b h)
  rcases b.started_ready (run_ready boots hs) with ⟨s', x, hs', hready⟩
  exact ⟨⟨s', x, hs', hready.now, (Boot.started_matched hrun hs').1 x hready.now⟩,
    boot_matched b hrun⟩

/-- A value of one letter. -/
def letter (c : UInt8) (h : 0 ∉ [c]) : Value := ⟨⟨[c], h⟩, List.cons_ne_nil c []⟩

/-- System A is selected, and `next` is wanted. The partitions are `a`, `b`, `c` and `d`, and
    `systemAB_damage` is `n`. -/
def systemAEnv (next : Value) : Env where
  systemA := some (letter 97 (by decide))
  rootfsA := some (letter 98 (by decide))
  systemB := some (letter 99 (by decide))
  rootfsB := some (letter 100 (by decide))
  systemABNow := some System.A.name
  systemABNext := some next
  systemABDamage := some (letter 110 (by decide))
  bootPartition := some (letter 97 (by decide))
  rootPartition := some (letter 98 (by decide))

theorem systemAEnv_stored (next : Value) : Stored (systemAEnv next) := by
  refine ⟨fun x => ?_, some_ne_none _, .A, rfl⟩
  cases x <;> exact ⟨some_ne_none _, some_ne_none _⟩

/-- A boot that fails, without a change before it. -/
def failingBoot : Boot := ⟨none, true, fun _ => true⟩

/-- System A is wanted, and the second boot fails. -/
theorem damage_leaves_systemA :
    Belongs (boot (after boot ⟨systemAEnv System.A.name, systemAEnv System.A.name⟩
      [{ failingBoot with failed := false }]) failingBoot).2.env .B := by
  rcases damage_leaves_failed ⟨systemAEnv System.A.name, systemAEnv System.A.name⟩
    (systemAEnv_stored _) [{ failingBoot with failed := false }] failingBoot rfl (.inl (by decide))
    rfl with ⟨s', x, hs', hx, hbelongs, -⟩
  obtain rfl := some.inj hs'
  obtain rfl : System.A = x := by
    revert hx
    cases x <;> decide
  exact hbelongs

/-- The save of the switch to system B fails, and the boot as well. In the next boot the switch is
    made again. -/
theorem kernel_of_systemA :
    ∃ s' x, failingBoot.started (after boot ⟨systemAEnv System.B.name, systemAEnv System.B.name⟩
      [{ failingBoot with saves := fun _ => false }]) = some s' ∧
      s'.env.systemABNow = some (System.name x) ∧ Belongs s'.env x := by
  refine (kernel_of_selected _ (systemAEnv_stored _) (fun x hx => ?_) _ failingBoot).1
  obtain rfl : System.A = x := by
    revert hx
    cases x <;> decide
  exact ⟨rfl, rfl⟩

/-- `systemAB_next` is `"C"`, and system A fails: the damage switch returns 0, and the board stays
    with system A. -/
theorem damage_stays :
    Stored (systemAEnv (letter 67 (by decide))) ∧
      (failingBoot.started ⟨systemAEnv (letter 67 (by decide)),
        systemAEnv (letter 67 (by decide))⟩).map (·.env.systemABNow) = some (some System.A.name) ∧
      (boot ⟨systemAEnv (letter 67 (by decide)), systemAEnv (letter 67 (by decide))⟩
        failingBoot).1 = some 0 ∧
      ¬ Belongs (boot ⟨systemAEnv (letter 67 (by decide)), systemAEnv (letter 67 (by decide))⟩
        failingBoot).2.env .B := by
  refine ⟨systemAEnv_stored _, rfl, rfl, fun h => ?_⟩
  exact absurd h.1 (by decide)

end Brandy.SwitchSystem
