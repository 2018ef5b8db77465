import Brandy.Theory.MtdPart.Stream

/-!
# Reading a Raw Partition

The reader knows where byte `t` of a partition is from the number of bytes it has skipped over bad
blocks in earlier calls. That number is right for the byte behind the last one it has read, and for
others only if no bad block is between. Inside a call bad blocks are looked for where a read begins,
and the reads keep to the blocks only when the call begins at a block.

## Main definitions

* `InStep`: A call for which neither matters.
* `Slice`: A successful call returns its part of the stream.

## Theorems

* `readMtdPart_ok`: A call in step.
* `reads_slices`: Along calls in step every successful one returns its part.
* `written_read_back`: What smooth calls have written comes back.
-/

namespace Brandy.MtdPart

open Memory Goods Simulation

/-- The bytes from `t` on begin at a block, or they are in a row. -/
def Whole (geo : Geometry) (offset t len : Nat) : Prop :=
  0 < len → t % geo.erasesize = 0 ∨
    ∀ x, addr geo offset t / geo.erasesize ≤ x → x * geo.erasesize < addr geo offset t + len →
      geo.isBad x = false

/-- A call that the counter of skipped bytes is right for, whose data is there, and whose reads meet
    no bad block and stay within the data. -/
structure InStep (geo : Geometry) (s : Reader) (num start sectors : Nat) : Prop where
  small : (start + sectors) * 512 < 2 ^ 32
  points : Points geo (s.st.part num).offset
    ((s.st.part num).offset + start * 512 + (s.select num).skipSize) (start * 512)
  room : (start + sectors) * 512 ≤
    (goods geo.isBad ((s.st.part num).offset / geo.erasesize)
      (geo.size / geo.erasesize)).length * geo.erasesize
  whole : Whole geo (s.st.part num).offset (start * 512) (sectors * 512)
  inside : sectors * 512 ≤ geo.erasesize - start * 512 % geo.erasesize ∨
    start * 512 % geo.erasesize ≤ sectors * 512

/-- A successful call returns its part of the stream, as it is on the chip. -/
def Slice (geo : Geometry) (faults : Faults) (code : Nat → Int) (bytes : Nat → Nat) (s : Reader)
    (call : ReadCall) : Prop :=
  ∀ s' buffer,
    readMtdPart geo faults code bytes s call.num call.start call.sectors call.buffer =
      some (0, s', buffer) →
    ∀ i : Nat, i < call.sectors * 512 →
      buffer i = s'.st.flash (addr geo (s.st.part call.num).offset (call.start * 512 + i))

/-- The bytes in the good blocks from the start of a partition on. -/
abbrev room (geo : Geometry) (offset : Nat) : Nat :=
  (goods geo.isBad (offset / geo.erasesize) (geo.size / geo.erasesize)).length * geo.erasesize

section

variable {geo : Geometry} {faults : Faults} {code : Nat → Int} {bytes : Nat → Nat}
variable {offset pos t len : Nat}

theorem checks_ok (n : Nat) {fuel pos skip : Nat} (hfuel : n < fuel)
    (hlt : pos + n * geo.erasesize < 2 ^ 32) (hle : skip ≤ pos) (hbad : BadRow geo pos n)
    (hgood : geo.isBad (pos / geo.erasesize + n) = false) :
    check0 geo fuel (pos / geo.erasesize) pos skip =
        some (pos + n * geo.erasesize, skip + n * geo.erasesize) ∧
      check1 geo fuel pos skip = some (pos + n * geo.erasesize, skip + n * geo.erasesize) := by
  rcases Nat.exists_eq_succ_of_ne_zero (show fuel ≠ 0 by omega) with ⟨fuel, rfl⟩
  cases n with
  | zero =>
    rw [add_zero] at hgood
    constructor
    · simp [check0, hgood]
    · simp [check1, hgood]
  | succ n =>
    rw [Nat.succ_mul] at hlt
    obtain ⟨hfirst, hrest, hend⟩ := BadRow.next hbad hgood
    rcases checks_ok n (show n < fuel by omega) (by omega)
      (Nat.add_le_add_right hle geo.erasesize) hrest hend with ⟨h0, h1⟩
    have hpos : (pos + geo.erasesize) % 2 ^ 32 = pos + geo.erasesize :=
      Nat.mod_eq_of_lt (by omega)
    have hskip : (skip + geo.erasesize) % 2 ^ 32 = skip + geo.erasesize :=
      Nat.mod_eq_of_lt (by omega)
    have hsum : ∀ a, a + geo.erasesize + n * geo.erasesize = a + (n + 1) * geo.erasesize := by
      intro a
      rw [Nat.succ_mul]
      omega
    rw [Nat.add_div_right _ geo.erasesize_pos] at h0
    constructor
    · rw [check0, if_pos hfirst, hpos, hskip, h0, hsum, hsum]
    · rw [check1, if_pos hfirst, hpos, hskip, h1, hsum, hsum]

/-- When there is more of the stream, the search finds the block of its next byte. -/
theorem Points.search (h : Points geo offset pos t) (skip : Nat) (hmore : t < room geo offset)
    (hskip : skip ≤ pos) :
    ∃ n, check0 geo (geo.size / geo.erasesize + 1) (pos / geo.erasesize) pos skip =
        some (pos + n * geo.erasesize, skip + n * geo.erasesize) ∧
      check1 geo (2 ^ 23 + 1) pos skip =
        some (pos + n * geo.erasesize, skip + n * geo.erasesize) ∧
      pos + n * geo.erasesize < 2 ^ 32 ∧ Points geo offset (pos + n * geo.erasesize) t ∧
      geo.isBad ((pos + n * geo.erasesize) / geo.erasesize) = false := by
  have hpos := geo.erasesize_pos
  have hsize := geo.size_lt
  have hless : t / geo.erasesize <
      (goods geo.isBad (offset / geo.erasesize) (geo.size / geo.erasesize)).length :=
    Nat.div_lt_of_lt_mul (by rwa [mul_comm])
  rw [← h.count] at hless
  rcases exists_isFirst h.start_le hless with ⟨g, hle, hgood, hbad⟩
  rcases Nat.exists_eq_add_of_le hle with ⟨n, rfl⟩
  have hblock : (pos + n * geo.erasesize) / geo.erasesize = pos / geo.erasesize + n :=
    Nat.add_mul_div_right _ _ hpos
  rcases good_lt hgood with ⟨hlt, hend⟩
  have hn : n < geo.size / geo.erasesize := lt_of_le_of_lt (Nat.le_add_left _ _) hlt
  -- there are at least 512 bytes in a block
  have hsector : 512 ≤ geo.erasesize := Nat.le_of_dvd hpos geo.sector_dvd
  have hfew : geo.size / geo.erasesize ≤ 2 ^ 23 := by
    calc geo.size / geo.erasesize ≤ geo.size / 512 := Nat.div_le_div_left hsector (by decide)
      _ ≤ 2 ^ 23 := by omega
  have hin : pos + n * geo.erasesize < 2 ^ 32 := by
    have := lt_blockEnd geo (pos + n * geo.erasesize)
    unfold blockEnd at this
    rw [hblock] at this
    omega
  refine ⟨n, (checks_ok n (by omega) hin hskip hbad hgood).1,
    (checks_ok n (by omega) hin hskip hbad hgood).2, hin, h.skip hbad, ?_⟩
  rwa [hblock]

variable {buffer buffer' : Mem}

theorem readMtdDo_ok {flash : Mem} {src off : Nat} {ret : Int}
    (h : readMtdDo geo code flash src len buffer off = (ret, buffer'))
    (hret : ¬(ret ≠ 0 ∧ ret ≠ -117)) :
    (∀ i : Nat, i < len → buffer' (off + i : Nat) = flash (src + i : Nat)) ∧
      ∀ i : Nat, i < off → buffer' i = buffer i := by
  unfold readMtdDo at h
  split_ifs at h with hsize hzero hcode
  all_goals cases h
  · exact absurd ⟨by decide, by decide⟩ hret
  · exact ⟨fun i hi => by omega, fun _ _ => rfl⟩
  · constructor
    · intro i hi
      rw [overlay_of_mem ⟨by push_cast; omega, by push_cast; omega⟩]
      congr 1
      push_cast
      omega
    · intro i hi
      refine overlay_of_notMem fun hmem => ?_
      have := hmem.1
      omega
  · exact absurd ⟨fun h => hcode (.inl h), fun h => hcode (.inr h)⟩ hret

section

variable {amount : Nat} (h : Points geo offset pos t)
  (hgood : geo.isBad (pos / geo.erasesize) = false) (hwhole : Whole geo offset t len)
  (hlen : amount ≤ len) (hamount : amount ≤ geo.erasesize)
include h hgood hwhole hlen hamount

theorem Points.row : GoodRow geo pos amount := by
  intro x hlo hhi
  have hsplit := Nat.div_add_mod pos geo.erasesize
  rw [mul_comm] at hsplit
  -- the first block is good, so only what is behind it matters
  rcases Nat.eq_or_lt_of_le hlo with rfl | hlt
  · exact hgood
  have hnext := Nat.mul_le_mul_right geo.erasesize hlt
  have hmod := Nat.mod_lt pos geo.erasesize_pos
  rw [Nat.succ_mul] at hnext
  rcases hwhole (by omega) with halign | hrow
  · rw [← h.mod] at halign
    omega
  · rw [h.addr_eq_pos hgood] at hrow
    exact hrow x hlo (by omega)

theorem Points.whole (halign : t % geo.erasesize = 0 → amount % geo.erasesize = 0 ∨ amount = len) :
    Whole geo offset (t + amount) (len - amount) := by
  intro hleft
  rcases hwhole (by omega) with hzero | hrow
  · rcases halign hzero with hmod | hall
    · exact .inl (by rw [Nat.add_mod, hzero, hmod, Nat.zero_mod])
    · omega
  have hnext := h.run (h.row hgood hwhole hlen hamount)
  rw [h.addr_eq_pos hgood] at hrow
  have hblock := Nat.div_mul_le_self (pos + amount) geo.erasesize
  have hstart : pos / geo.erasesize ≤ (pos + amount) / geo.erasesize :=
    Nat.div_le_div_right (Nat.le_add_right _ _)
  refine .inr fun x hlo hhi => ?_
  rw [hnext.addr_eq_pos (hrow _ hstart (by omega))] at hlo hhi
  exact hrow x (le_trans hstart hlo) (by omega)

theorem Points.row_lt : pos + amount < 2 ^ 32 := by
  have hsize := geo.size_lt
  rcases Nat.eq_zero_or_pos amount with rfl | hpos
  · have hend := (good_lt hgood).2
    have hlt := lt_blockEnd geo pos
    unfold blockEnd at hlt
    omega
  · have := row_le_size hpos (h.row hgood hwhole hlen hamount)
    omega

end

theorem readLoop_ok {flash : Mem} (n : Nat) {t left off skip skip' : Nat} {buffer buffer' : Mem}
    (hturns : n = (left + geo.erasesize - 1) / geo.erasesize)
    (hat : Points geo offset (offset + t + skip) t) (hroom : t + left ≤ room geo offset)
    (hwhole : Whole geo offset t left)
    (heq : readLoop geo code flash n left (offset + t + skip) off skip buffer =
      some (0, skip', buffer')) :
    (∀ i : Nat, i < left → buffer' (off + i : Nat) = flash (addr geo offset (t + i))) ∧
      (∀ i : Nat, i < off → buffer' i = buffer i) ∧
      Points geo offset (offset + (t + left) + skip') (t + left) := by
  have hpos := geo.erasesize_pos
  induction n generalizing t left off skip buffer with
  | zero =>
    have hleft : left = 0 := by
      have := Nat.lt_of_div_eq_zero hpos hturns.symm
      omega
    subst hleft
    cases heq
    exact ⟨fun i hi => absurd hi (Nat.not_lt_zero i), fun _ _ => rfl, hat⟩
  | succ n ih =>
    have hleft : 0 < left := by
      by_contra hzero
      rw [show left = 0 by omega, zero_add, Nat.div_eq_of_lt (by omega)] at hturns
      omega
    rcases hat.search skip (by omega) (by omega) with ⟨k, -, hcheck, -, hat', hgood⟩
    rw [readLoop, hcheck] at heq
    generalize hread : (if left ≤ geo.erasesize then left else geo.erasesize) = amount at heq
    have hamount : amount ≤ left ∧ amount ≤ geo.erasesize ∧
        (amount = left ∨ amount = geo.erasesize) := by
      split at hread <;> omega
    rcases hdo : readMtdDo geo code flash (offset + t + skip + k * geo.erasesize) amount buffer off
      with ⟨ret, buffer₁⟩
    simp only [hdo] at heq
    split_ifs at heq with hret
    · cases heq
      exact absurd rfl hret.1
    rcases readMtdDo_ok hdo hret with ⟨hdata, hold⟩
    have hrow := hat'.row hgood hwhole hamount.1 hamount.2.1
    have hnext := hat'.run hrow
    have hplace : offset + t + skip + k * geo.erasesize + amount =
        offset + (t + amount) + (skip + k * geo.erasesize) := by omega
    have hturns' : n = (left - amount + geo.erasesize - 1) / geo.erasesize := by
      rcases hamount.2.2 with hall | hblock
      · rw [hall, Nat.sub_self, zero_add, Nat.div_eq_of_lt (by omega)]
        have : (left + geo.erasesize - 1) / geo.erasesize < 2 :=
          Nat.div_lt_of_lt_mul (by omega)
        omega
      · rw [hblock]
        rw [show left + geo.erasesize - 1 = left - geo.erasesize + geo.erasesize - 1 +
          geo.erasesize by omega, Nat.add_div_right _ hpos] at hturns
        omega
    have hwhole' := hat'.whole hgood hwhole hamount.1 hamount.2.1 fun _ =>
      hamount.2.2.symm.imp_left fun hblock => by rw [hblock, Nat.mod_self]
    rw [Nat.mod_eq_of_lt (hat'.row_lt hgood hwhole hamount.1 hamount.2.1), hplace] at heq
    rw [hplace] at hnext
    rcases ih hturns' hnext (by omega) hwhole' heq with ⟨hrest, hbefore, hend⟩
    refine ⟨fun i hi => ?_, fun i hi => ?_, ?_⟩
    · by_cases hin : i < amount
      · rw [hbefore _ (by omega), hdata i hin, hat'.addr_add hrow hin]
      · have := hrest (i - amount) (by omega)
        rwa [show off + amount + (i - amount) = off + i by omega,
          show t + amount + (i - amount) = t + i by omega] at this
    · rw [hbefore i (by omega), hold i hi]
    · rwa [show t + amount + (left - amount) = t + left by omega] at hend

section

variable (hroom : t + len ≤ room geo offset) (hwhole : Whole geo offset t len)
  (hinside : len ≤ geo.erasesize - t % geo.erasesize ∨ t % geo.erasesize ≤ len)
  (hlen : len < 2 ^ 32)
include hroom hwhole hinside hlen

theorem readFirst_ok {flash : Mem} {skip left readStart off skip' : Nat}
    (hat : Points geo offset (offset + t + skip) t)
    (heq : readFirst geo code flash (offset + t + skip) len skip buffer =
      some (0, left, readStart, off, skip', buffer')) :
    left + off = len ∧ readStart = offset + (t + off) + skip' ∧
      Points geo offset (offset + (t + off) + skip') (t + off) ∧
      Whole geo offset (t + off) left ∧
      ∀ i : Nat, i < off → buffer' i = flash (addr geo offset (t + i)) := by
  have hpos := geo.erasesize_pos
  have hmod := Nat.mod_lt t hpos
  unfold readFirst at heq
  rw [hat.mod] at heq
  split_ifs at heq with hlong
  swap
  · cases heq
    exact ⟨rfl, rfl, hat, hwhole, fun i hi => absurd hi (Nat.not_lt_zero i)⟩
  rcases hat.search skip (by omega) (by omega) with ⟨k, hcheck, -, -, hat', hgood⟩
  rw [hcheck] at heq
  rcases hdo : readMtdDo geo code flash (offset + t + skip + k * geo.erasesize)
    (t % geo.erasesize) buffer 0 with ⟨ret, buffer₁⟩
  simp only [hdo] at heq
  split_ifs at heq with hret
  · cases heq
    exact absurd rfl hret.1
  have hle : t % geo.erasesize ≤ len := by omega
  have hrow := hat'.row hgood hwhole hle (le_of_lt hmod)
  have hwhole' := hat'.whole hgood hwhole hle (le_of_lt hmod) fun hzero =>
    .inl (by rw [hzero, Nat.zero_mod])
  have hnext := hat'.run hrow
  rw [Nat.mod_eq_of_lt (hat'.row_lt hgood hwhole hle (le_of_lt hmod)),
    show (len + 2 ^ 32 - t % geo.erasesize) = len - t % geo.erasesize + 2 ^ 32 by omega,
    Nat.add_mod_right, Nat.mod_eq_of_lt (by omega)] at heq
  simp only [Option.some.injEq, Prod.mk.injEq, true_and] at heq
  rcases heq with ⟨rfl, rfl, rfl, rfl, rfl⟩
  have hplace : offset + t + skip + k * geo.erasesize + t % geo.erasesize =
      offset + (t + t % geo.erasesize) + (skip + k * geo.erasesize) := by omega
  rw [hplace] at hnext
  refine ⟨by omega, hplace, hnext, hwhole', fun i hi => ?_⟩
  have hbyte := (readMtdDo_ok hdo hret).1 i hi
  rw [zero_add] at hbyte
  rw [hbyte, hat'.addr_add hrow hi]

theorem readData_ok {s s' : Reader} (hat : Points geo offset (offset + t + s.skipSize) t)
    (heq : readData geo code s (offset + t + s.skipSize) len buffer = some (0, s', buffer')) :
    (∀ i : Nat, i < len → buffer' i = s.st.flash (addr geo offset (t + i))) ∧
      Points geo offset (offset + (t + len) + s'.skipSize) (t + len) ∧
      s'.st = s.st ∧ s'.lastReadMtd = s.lastReadMtd := by
  unfold readData at heq
  rcases hfirst : readFirst geo code s.st.flash (offset + t + s.skipSize) len s.skipSize buffer with
    - | ⟨ret, left, readStart, off, skip₁, buffer₁⟩
  all_goals simp only [hfirst, reduceCtorEq] at heq
  split_ifs at heq with hret
  · cases heq
    exact absurd rfl hret
  obtain rfl := not_not.mp hret
  rcases readFirst_ok hroom hwhole hinside hlen hat hfirst with
    ⟨hsum, rfl, hat₁, hwhole₁, hdata₁⟩
  rcases hloop : readLoop geo code s.st.flash ((left + geo.erasesize - 1) / geo.erasesize) left
    (offset + (t + off) + skip₁) off skip₁ buffer₁ with - | ⟨ret, skip₂, buffer₂⟩
  all_goals simp only [hloop, reduceCtorEq, Option.some.injEq, Prod.mk.injEq] at heq
  rcases heq with ⟨rfl, rfl, rfl⟩
  rcases readLoop_ok _ rfl hat₁ (by omega) hwhole₁ hloop with ⟨hdata₂, hold, hend⟩
  rw [show t + off + left = t + len by omega] at hend
  refine ⟨fun i hi => ?_, hend, rfl, rfl⟩
  by_cases hin : i < off
  · rw [hold i hin, hdata₁ i hin]
  · have := hdata₂ (i - off) (by omega)
    rwa [show off + (i - off) = i by omega, show t + off + (i - off) = t + i by omega] at this

end

theorem select_st (s : Reader) (num : Nat) : (s.select num).st = s.st := by
  unfold Reader.select
  split <;> rfl

theorem select_lastReadMtd (s : Reader) (num : Nat) : (s.select num).lastReadMtd = num := by
  unfold Reader.select
  split
  · rfl
  · rename_i h
    exact not_not.mp h

theorem readData_zero (s : Reader) (first : Nat) (buffer : Mem) :
    readData geo code s first 0 buffer = some (0, s, buffer) := by
  have hnone : ¬geo.erasesize - first % geo.erasesize < 0 := Nat.not_lt_zero _
  have hturns : (0 + geo.erasesize - 1) / geo.erasesize = 0 := by
    have := geo.erasesize_pos
    exact Nat.div_eq_of_lt (by omega)
  unfold readData readFirst
  rw [if_neg hnone]
  simp only [hturns, readLoop, ne_eq, not_true_eq_false, if_false]

section

variable {s s' : Reader} {num start sectors : Nat} (h : InStep geo s num start sectors)
  (heq : readMtdPart geo faults code bytes s num start sectors buffer = some (0, s', buffer'))
include h heq

theorem readMtdPart_ok :
    (∀ i : Nat, i < sectors * 512 →
        buffer' i = s'.st.flash (addr geo (s.st.part num).offset (start * 512 + i))) ∧
      Points geo (s.st.part num).offset
        ((s.st.part num).offset + (start + sectors) * 512 + s'.skipSize)
        ((start + sectors) * 512) ∧
      (s'.st.part num).offset = (s.st.part num).offset ∧ s'.lastReadMtd = num := by
  have hsmall := h.small
  have hat := h.points
  have hroom := h.room
  rw [add_mul] at hsmall hroom ⊢
  have hstart : toBytes start = start * 512 :=
    toBytes_eq (lt_of_le_of_lt (Nat.le_add_right _ _) hsmall)
  have hlen : sectors * 512 < 2 ^ 32 := lt_of_le_of_lt (Nat.le_add_left _ _) hsmall
  unfold readMtdPart at heq
  simp only [select_st, hstart, toBytes_eq hlen] at heq
  split_ifs at heq
  · cases heq
  rcases Nat.eq_zero_or_pos sectors with rfl | hpos
  · rw [zero_mul, readData_zero] at heq
    cases heq
    refine ⟨fun i hi => ?_, ?_, flushMtdDev_offset geo faults s.st num, select_lastReadMtd s num⟩
    · rw [zero_mul] at hi
      exact absurd hi (Nat.not_lt_zero i)
    · rw [zero_mul, add_zero]
      exact hat
  · have hmore := lt_of_lt_of_le (Nat.lt_add_of_pos_right (mul_pos hpos (by decide))) hroom
    have hmod : ((s.st.part num).offset + start * 512 + (s.select num).skipSize) % 2 ^ 32 =
        (s.st.part num).offset + start * 512 + (s.select num).skipSize := by
      rcases hat.search (s.select num).skipSize hmore (Nat.le_add_left _ _) with
        ⟨k, -, -, hlt, -⟩
      exact Nat.mod_eq_of_lt (lt_of_le_of_lt (Nat.le_add_right _ _) hlt)
    rw [hmod] at heq
    rcases readData_ok (s := { s.select num with st := (flushMtdDev geo faults s.st).2 }) hroom
      h.whole h.inside hlen hat heq with ⟨hdata, hend, hst, hlast⟩
    rw [hst, hlast, select_lastReadMtd]
    exact ⟨hdata, hend, flushMtdDev_offset geo faults s.st num, rfl⟩

end

/-- Along calls in step every successful one returns its part of the stream. -/
theorem reads_slices (geo : Geometry) (faults : Faults) (code : Nat → Int) (bytes : Nat → Nat)
    (s : Reader) (calls : List ReadCall)
    (h : Along (readStep geo faults code bytes)
      (fun s call => InStep geo s call.num call.start call.sectors) s calls) :
    Along (readStep geo faults code bytes) (Slice geo faults code bytes) s calls :=
  Along.imp (fun _ _ hstep _ _ heq => (readMtdPart_ok hstep heq).1) calls s h

theorem readMtdPart_flash {s s' : Reader} {num start sectors : Nat} {buffer buffer' : Mem}
    (h : readMtdPart geo faults code bytes s num start sectors buffer = some (0, s', buffer')) :
    s'.st.flash = (flushMtdDev geo faults s.st).2.flash := by
  unfold readMtdPart readData at h
  simp only [select_st] at h
  split_ifs at h
  · cases h
  split at h
  · cases h
  split_ifs at h
  · cases h
    rfl
  split at h
  · cases h
  · cases h
    rfl

/-- What is stored fits the good blocks. -/
theorem Stored.length_le {p : Part} {data : List UInt8} {base wbuf flash : Mem}
    (h : Stored geo p data base wbuf flash) : data.length ≤ room geo p.offset := by
  have hsplit := Nat.div_add_mod data.length geo.erasesize
  have hlt := Nat.mod_lt data.length geo.erasesize_pos
  rw [mul_comm] at hsplit
  unfold room
  by_cases hmod : data.length % geo.erasesize = 0
  · have hmono := length_goods_mono geo.isBad (p.offset / geo.erasesize)
      (Nat.div_le_div_right (c := geo.erasesize) h.pos_le)
    rw [h.points.count] at hmono
    have hmul := Nat.mul_le_mul_right geo.erasesize hmono
    omega
  · have hgood := h.inside hmod
    have hmono := length_goods_mono geo.isBad (p.offset / geo.erasesize) (good_lt hgood).1
    rw [goods_succ_good h.points.start_le hgood, List.length_append, h.points.count] at hmono
    have hmul := Nat.mul_le_mul_right geo.erasesize hmono
    rw [List.length_singleton, Nat.succ_mul] at hmul
    omega

/-- What smooth calls have written comes back: a successful read from the start of the partition has
    the bytes handed over, over bad blocks and with a flush in between. -/
theorem written_read_back {st : St} {num sectors : Nat} {calls : List (Nat × Mem)}
    (hnew : (num : Int) ≠ st.lastNum) (hdvd : geo.erasesize ∣ (st.part num).offset)
    (hle : (st.part num).offset ≤ geo.size) (hcalls : calls ≠ [])
    (hsmooth : Along (writeStep geo faults num)
      (fun s call => Smooth geo ((startPart geo faults s num).part num) call.1) st calls)
    (hzero : ∀ r ∈ replies (writeStep geo faults num) st calls, r = some 0)
    (hsettled : Settled geo ((after (writeStep geo faults num) st calls).part num))
    {last : Int} (hlast : last ≠ num) (hlen : sectors * 512 ≤ (received calls).length)
    {skip : Nat} {s' : Reader} {buffer buffer' : Mem}
    (hread : readMtdPart geo faults code bytes
      ⟨after (writeStep geo faults num) st calls, last, skip⟩
      num 0 sectors buffer = some (0, s', buffer')) :
    read buffer' 0 (sectors * 512) = (received calls).take (sectors * 512) := by
  rcases stored_along hnew hdvd hle hsmooth hzero with ⟨hstored, hpartno, -, hwritten⟩
  generalize after (writeStep geo faults num) st calls = s at *
  have hnum := hwritten.resolve_left hcalls
  rw [startPart_of_lastNum hnum] at hstored hpartno
  have hflash := (readMtdPart_flash hread).trans (flush_settled hpartno hstored hsettled)
  have hroom := hstored.length_le
  have hsize := geo.size_lt
  have hpos := hstored.pos_le
  have hsum := hstored.pos_eq
  -- the count of skipped bytes starts again, and the start of the partition is in step
  have hselect : (Reader.select ⟨s, last, skip⟩ num).skipSize = 0 := by
    unfold Reader.select
    rw [if_pos hlast]
  have hstep : InStep geo ⟨s, last, skip⟩ num 0 sectors := by
    refine ⟨by omega, ?_, by rw [zero_add]; exact hlen.trans hroom, fun _ => .inl (Nat.zero_mod _),
      .inr (Nat.zero_le _)⟩
    have hdvd' := hstored.points.dvd
    rw [hselect, zero_mul, add_zero, add_zero]
    refine ⟨hdvd', le_rfl, by rw [Nat.mod_eq_zero_of_dvd hdvd', Nat.zero_mod], ?_⟩
    rw [goods_of_le le_rfl, List.length_nil, Nat.zero_div]
  have hdata := (readMtdPart_ok hstep hread).1
  have htake : ((received calls).take (sectors * 512)).length = sectors * 512 := by
    rw [List.length_take, min_eq_left hlen]
  refine (congrArg (read buffer' 0) htake.symm).trans (read_eq_of_getD _ 0 _ fun i hi => ?_)
  rw [htake] at hi
  have hbyte := hdata i hi
  rw [hflash, zero_mul, zero_add, hstored.bytes i (by omega)] at hbyte
  rw [zero_add, hbyte, List.getD_eq_getElem?_getD, List.getD_eq_getElem?_getD,
    List.getElem?_take_of_lt hi]

/-- Nothing has been read. -/
def freshReader : Reader where
  st := smallSt
  lastReadMtd := -1
  skipSize := 0

/-- A sector, and the one behind it. -/
theorem reads_in_order :
    Along (readStep smallChip noFaults (fun _ => 0) (fun _ => 1024))
      (Slice smallChip noFaults (fun _ => 0) (fun _ => 1024)) freshReader
      [⟨0, 0, 1, fun _ => 0xff⟩, ⟨0, 1, 1, fun _ => 0xff⟩] := by
  refine reads_slices _ _ _ _ _ _ ⟨?_, ?_, trivial⟩
  · exact ⟨by decide, ⟨by decide, by decide, by decide, by decide⟩, by decide, fun _ => .inl rfl,
      by decide⟩
  · exact ⟨by decide, ⟨by decide +kernel, by decide +kernel, by decide +kernel, by decide +kernel⟩,
      by decide +kernel, fun _ => .inl rfl, by decide⟩

theorem two_sectors_back : ∃ s' buffer', readMtdPart smallChip noFaults (fun _ => 0) (fun _ => 1024)
      ⟨after (writeStep smallChip noFaults 0) smallSt twoSectors, -1, 0⟩ 0 0 2 (fun _ => 0) =
        some (0, s', buffer') ∧
      read buffer' 0 (2 * 512) = (received twoSectors).take (2 * 512) := by
  have hrun : (readMtdPart smallChip noFaults (fun _ => 0) (fun _ => 1024)
      ⟨after (writeStep smallChip noFaults 0) smallSt twoSectors, -1, 0⟩ 0 0 2
        (fun _ => 0)).map (·.1) = some 0 := by decide +kernel
  rcases Option.map_eq_some_iff.mp hrun with ⟨⟨ret, s', buffer'⟩, hread, rfl⟩
  exact ⟨s', buffer', hread, written_read_back (by decide) (by decide) (by decide) (by decide)
    smooth_twoSectors (by decide +kernel) (.inr (.inl (by decide +kernel))) (by decide)
    (by decide +kernel) hread⟩

/-- Both sectors are read, then the first one again. The second call starts at the bad block and
    returns what is behind it. -/
theorem reads_again :
    (replies (readStep smallChip noFaults (fun _ => 0) (fun _ => 1024)) freshReader
        [⟨0, 0, 2, fun _ => 0xff⟩, ⟨0, 0, 1, fun _ => 0xff⟩]).map
          (Option.map fun reply => (reply.1, reply.2 0)) = [some (0, 0), some (0, 2)] ∧
      ¬Along (readStep smallChip noFaults (fun _ => 0) (fun _ => 1024))
        (Slice smallChip noFaults (fun _ => 0) (fun _ => 1024)) freshReader
        [⟨0, 0, 2, fun _ => 0xff⟩, ⟨0, 0, 1, fun _ => 0xff⟩] := by
  refine ⟨by decide +kernel, ?_⟩
  rintro ⟨-, hslice, -⟩
  have hrun : (readMtdPart smallChip noFaults (fun _ => 0) (fun _ => 1024)
      (readStep smallChip noFaults (fun _ => 0) (fun _ => 1024) freshReader
        ⟨0, 0, 2, fun _ => 0xff⟩).2 0 0 1 (fun _ => 0xff)).map
      (fun result => (result.1, result.2.2 (0 : Nat),
        result.2.1.st.flash (addr smallChip 0 (0 * 512 + 0)))) = some (0, 2, 0) := by
    decide +kernel
  rcases Option.map_eq_some_iff.mp hrun with ⟨⟨ret, s', buffer⟩, heq, hval⟩
  simp only [Prod.mk.injEq] at hval
  rcases hval with ⟨rfl, hbyte, hflash⟩
  -- the first byte is that of block 2 and not of block 0
  have hsame : buffer (0 : Nat) = s'.st.flash (addr smallChip 0 (0 * 512 + 0)) :=
    hslice s' buffer heq 0 (by decide)
  rw [hbyte, hflash] at hsame
  cases hsame

end

end Brandy.MtdPart
