import Mathlib.Data.List.OfFn
import WebserverEthercat.Startup.Server

/-!
# The state checks of `initialize_ethercat`

`ec_statecheck(0, ..)` reads the OR of the AL states of all slaves.  The codes
of INIT, PRE_OP, SAFE_OP and OPERATIONAL are single bits, so that the OR is one
of them only if all slaves agree; the code of BOOT is the OR of INIT and PRE_OP.
-/

set_option autoImplicit false

namespace WebserverEthercat.Startup

open EventMachine

/-! ## The states of a network -/

inductive AlState where
  | init
  | preOp
  | boot
  | safeOp
  | operational
deriving DecidableEq, Repr

def AlState.code : AlState → UInt16
  | .init => ecStateInit
  | .preOp => ecStatePreOp
  | .boot => ecStateBoot
  | .safeOp => ecStateSafeOp
  | .operational => ecStateOperational

structure SlaveStatus where
  al : AlState
  error : Bool
deriving DecidableEq, Repr

def SlaveStatus.word (status : SlaveStatus) : UInt16 :=
  if status.error then status.al.code ||| ecStateError else status.al.code

abbrev NetworkStates (slaves : Nat) := Fin slaves → SlaveStatus

variable {slaves : Nat}

/-- `ecx_BRD` of the register: each slave ORs its own into the datagram. -/
def broadcast (states : NetworkStates slaves) : UInt16 :=
  (List.ofFn fun slave => (states slave).word).foldl (· ||| ·) 0

/-- What one call of `ec_statecheck` can poll until its timer has expired. -/
structure Polls (slaves : Nat) where
  first : NetworkStates slaves
  later : List (NetworkStates slaves)

/-- The poll that ends `do { .. } while ((state != reqstate) && !expired)` -/
def stoppingPoll (reqstate : UInt16) :
    NetworkStates slaves → List (NetworkStates slaves) → NetworkStates slaves
  | states, [] => states
  | states, next :: rest =>
      if broadcast states &&& 0x000f ≠ reqstate then stoppingPoll reqstate next rest else states

def Polls.stopping (polls : Polls slaves) (reqstate : UInt16) : NetworkStates slaves :=
  stoppingPoll reqstate polls.first polls.later

/-- The result of `ecx_statecheck` for slave 0, and `slavelist[0].state` after it. -/
def ecxStatecheck (polls : Polls slaves) (reqstate : UInt16) : UInt16 × UInt16 :=
  let rval := broadcast (polls.stopping reqstate)
  (rval &&& 0x000f, rval)

/-! ## The server on a network -/

/-- An answer whose states are those that the network lets a check of all slaves find. -/
def InitializeSite.answered (site : InitializeSite) (answer : Answer) (polls : Polls slaves) :
    Answer :=
  match site.call answer with
  | .statecheck 0 reqstate =>
      { answer with
        deviceState := (ecxStatecheck polls reqstate).1
        slave0State := (ecxStatecheck polls reqstate).2 }
  | _ => answer

structure NetworkEvent (slaves : Nat) where
  event : ServerEvent
  polls : Polls slaves

namespace NetworkEvent

def seenBy (event : NetworkEvent slaves) (state : ServerState) : ServerEvent :=
  match state.pc, event.event with
  | .initializeEthercat site, .main answer => .main (site.answered answer event.polls)
  | _, other => other

def next (state : ServerState) (event : NetworkEvent slaves) : Option ServerState :=
  state.next (event.seenBy state)

end NetworkEvent

/-! ## The property -/

/-- What a check that is passed says about every slave. -/
def InitializeSite.Sound (site : InitializeSite) (jump : Jump InitializeSite)
    (polls : Polls slaves) : Prop :=
  match site with
  | .checkInit =>
      jump = .goto .writeBoot → ∀ slave, (polls.stopping ecStateInit slave).al = .init
  | .checkBoot =>
      jump = .goto .writeInitAgain →
        ∀ slave, (polls.stopping ecStateBoot slave).al = .boot ∨
          (polls.stopping ecStateBoot slave).al = .init
  | .checkInitAgain =>
      jump = .goto .waitCheck → ∀ slave, (polls.stopping ecStateInit slave).al = .init
  | .checkPreOp =>
      jump = .goto .configMap → ∀ slave, (polls.stopping ecStatePreOp slave).al = .preOp
  | .checkSafeOp =>
      jump = .done 0 → ∀ slave, polls.stopping ecStateSafeOp slave = ⟨.safeOp, false⟩
  | _ => jump ≠ .done 0

def ChecksSound (state : ServerState) (event : NetworkEvent slaves) : Prop :=
  ∀ site answer, state.pc = .initializeEthercat site → event.event = .main answer →
    site.Sound (site.next state.slavecount (site.answered answer event.polls)) event.polls

/-! ## The condition -/

/-- Slaves in PRE_OP beside slaves in INIT or BOOT, and none beyond. -/
structure Mixed (states : NetworkStates slaves) : Prop where
  low : ∀ slave, (states slave).al ≠ .safeOp ∧ (states slave).al ≠ .operational
  preOp : ∃ slave, (states slave).al = .preOp
  other : ∃ slave, (states slave).al ≠ .preOp

structure Booted (states : NetworkStates slaves) : Prop where
  all : ∀ slave, (states slave).al = .boot ∨ (states slave).al = .init
  one : ∃ slave, (states slave).al = .boot

/-- A mixed network is polled only behind one that has reached BOOT. -/
def BootClear (polls : Polls slaves) : Prop :=
  ∀ before states after, polls.first :: polls.later = before ++ states :: after →
    Mixed states → ∃ earlier ∈ before, Booted earlier

def BootCondition (state : ServerState) (event : NetworkEvent slaves) : Prop :=
  ∀ answer, state.pc = .initializeEthercat .checkBoot → event.event = .main answer →
    BootClear event.polls

/-! ## What the OR tells -/

theorem or_and_eq_zero (word other mask : UInt16) :
    (word ||| other) &&& mask = 0 ↔ word &&& mask = 0 ∧ other &&& mask = 0 := by
  have distributes : (word ||| other) &&& mask = word &&& mask ||| other &&& mask := by
    apply UInt16.toBitVec_inj.mp
    simp only [UInt16.toBitVec_and, UInt16.toBitVec_or]
    ext bit
    simp [Bool.and_or_distrib_right]
  rw [distributes, UInt16.or_eq_zero_iff]

theorem foldl_or_and_eq_zero (words : List UInt16) (mask : UInt16) :
    ∀ start, words.foldl (· ||| ·) start &&& mask = 0 ↔
      start &&& mask = 0 ∧ ∀ word ∈ words, word &&& mask = 0 := by
  induction words with
  | nil => simp
  | cons word words ih =>
      intro start
      rw [List.foldl_cons, ih, or_and_eq_zero, List.forall_mem_cons, and_assoc]

/-- The OR has no bit of a mask exactly when no slave has one. -/
theorem broadcast_and_eq_zero (states : NetworkStates slaves) (mask : UInt16) :
    broadcast states &&& mask = 0 ↔ ∀ slave, (states slave).word &&& mask = 0 := by
  rw [broadcast, foldl_or_and_eq_zero, List.forall_mem_ofFn_iff]
  simp

/-- No other state has its bits inside a code of one bit. -/
theorem al_of_word_and {al : AlState} (single : al ≠ .boot) {status : SlaveStatus}
    (alone : status.word &&& (0x000f ^^^ al.code) = 0) : status.al = al := by
  rcases status with ⟨own, error⟩
  cases al with
  | boot => exact absurd rfl single
  | _ => cases own <;> cases error <;> first | rfl | cases alone

/-- A code of one bit is read only from slaves that are all in its state. -/
theorem all_in_state {al : AlState} (single : al ≠ .boot) {states : NetworkStates slaves}
    (reads : broadcast states &&& 0x000f = al.code) : ∀ slave, (states slave).al = al := by
  have others : broadcast states &&& (0x000f ^^^ al.code) = 0 := by
    have inside : (0x000f ^^^ al.code) = 0x000f &&& (0x000f ^^^ al.code) := by
      cases al <;> rfl
    rw [inside, ← UInt16.and_assoc, reads]
    cases al <;> rfl
  intro slave
  exact al_of_word_and single ((broadcast_and_eq_zero states _).mp others slave)

/-- The error bit is in the OR that `ec_slave[0].state` keeps. -/
theorem all_in_safeOp {states : NetworkStates slaves} (reads : broadcast states = ecStateSafeOp) :
    ∀ slave, states slave = ⟨.safeOp, false⟩ := by
  have others : broadcast states &&& ~~~ ecStateSafeOp = 0 := by
    rw [reads]
    rfl
  intro slave
  have alone := (broadcast_and_eq_zero states _).mp others slave
  generalize states slave = status at alone
  rcases status with ⟨own, error⟩
  cases own <;> cases error <;> first | rfl | cases alone

theorem low_bits_cases (Holds : UInt16 → Prop) (cases : ∀ bits : Fin 16, Holds (.ofNat bits))
    (word : UInt16) : Holds (word &&& 0x000f) := by
  have small : (word &&& 0x000f).toNat < 16 := by
    rw [UInt16.toNat_and]
    exact Nat.lt_succ_of_le Nat.and_le_right
  have held := cases ⟨_, small⟩
  rwa [UInt16.ofNat_toNat] at held

/-- BOOT is read when the bits of INIT and PRE_OP are there and no other. -/
theorem reads_boot (word : UInt16) :
    word &&& 0x000f = ecStateBoot ↔
      word &&& 0x000c = 0 ∧ word &&& 0x0001 ≠ 0 ∧ word &&& 0x0002 ≠ 0 := by
  have inside : ∀ mask : UInt16, mask = 0x000f &&& mask →
      word &&& mask = (word &&& 0x000f) &&& mask := by
    intro mask within
    rw [UInt16.and_assoc, ← within]
  rw [inside 0x000c rfl, inside 0x0001 rfl, inside 0x0002 rfl]
  exact low_bits_cases (fun bits => bits = ecStateBoot ↔
    bits &&& 0x000c = 0 ∧ bits &&& 0x0001 ≠ 0 ∧ bits &&& 0x0002 ≠ 0) (by decide) word

theorem SlaveStatus.word_bits (status : SlaveStatus) :
    (status.word &&& 0x000c = 0 ↔ status.al ≠ .safeOp ∧ status.al ≠ .operational) ∧
      (status.word &&& 0x0001 ≠ 0 ↔ status.al = .init ∨ status.al = .boot) ∧
      (status.word &&& 0x0002 ≠ 0 ↔ status.al = .preOp ∨ status.al = .boot) := by
  rcases status with ⟨al, error⟩
  cases al <;> cases error <;> decide

theorem reads_boot_iff (states : NetworkStates slaves) :
    broadcast states &&& 0x000f = ecStateBoot ↔ Mixed states ∨ Booted states := by
  have low := forall_congr' fun slave => (states slave).word_bits.1
  have odd := exists_congr fun slave => (states slave).word_bits.2.1
  have even := exists_congr fun slave => (states slave).word_bits.2.2
  simp only [reads_boot, ne_eq, broadcast_and_eq_zero, not_forall] at odd even ⊢
  rw [low, odd, even]
  constructor
  · rintro ⟨low, ⟨one, oneState⟩, two, twoState⟩
    by_cases preOp : ∃ slave, (states slave).al = .preOp
    · refine .inl ⟨low, preOp, one, ?_⟩
      rcases oneState with isInit | isBoot
      · simp [isInit]
      · simp [isBoot]
    · refine .inr ⟨fun slave => ?_, two, twoState.resolve_left fun is => preOp ⟨two, is⟩⟩
      have notPreOp := not_exists.mp preOp slave
      have notHigh := low slave
      cases own : (states slave).al <;> simp_all
  · rintro (⟨low, preOp, other, notPreOp⟩ | ⟨all, one, isBoot⟩)
    · obtain ⟨two, isPreOp⟩ := preOp
      refine ⟨low, ⟨other, ?_⟩, two, .inl isPreOp⟩
      have notHigh := low other
      cases own : (states other).al <;> simp_all
    · refine ⟨fun slave => ?_, ⟨one, .inr isBoot⟩, one, .inr isBoot⟩
      rcases all slave with is | is <;> simp [is]

/-! ## The poll that ends the BOOT check -/

/-- An entry that is wanted with no barred one in front of it: the first entry is wanted, or it is
not barred and the rest decides. -/
theorem split_cons {Entry : Type} (Wanted Barred : Entry → Prop) (first : Entry)
    (rest : List Entry) :
    (∃ before entry after, first :: rest = before ++ entry :: after ∧ Wanted entry ∧
        ∀ earlier ∈ before, ¬ Barred earlier) ↔
      Wanted first ∨ ¬ Barred first ∧
        ∃ before entry after, rest = before ++ entry :: after ∧ Wanted entry ∧
          ∀ earlier ∈ before, ¬ Barred earlier := by
  constructor
  · rintro ⟨before, entry, after, split, wanted, free⟩
    cases before with
    | nil =>
        obtain ⟨rfl, -⟩ := List.cons.inj split
        exact .inl wanted
    | cons head before =>
        obtain ⟨rfl, tail⟩ := List.cons.inj split
        obtain ⟨here, later⟩ := List.forall_mem_cons.mp free
        exact .inr ⟨here, before, entry, after, tail, wanted, later⟩
  · rintro (wanted | ⟨here, before, entry, after, rfl, wanted, later⟩)
    · exact ⟨[], first, rest, rfl, wanted, by simp⟩
    · exact ⟨first :: before, entry, after, rfl, wanted, List.forall_mem_cons.mpr ⟨here, later⟩⟩

/-- The induction is on the polls behind the first: a poll that reads as BOOT ends the check. -/
theorem stoppingPoll_mixed (first : NetworkStates slaves) (later : List (NetworkStates slaves)) :
    Mixed (stoppingPoll ecStateBoot first later) ↔
      ∃ before states after, first :: later = before ++ states :: after ∧ Mixed states ∧
        ∀ earlier ∈ before, ¬ Booted earlier := by
  induction later generalizing first with
  | nil =>
      rw [split_cons Mixed Booted, stoppingPoll]
      simp
  | cons next rest ih =>
      rw [split_cons Mixed Booted, ← ih next, stoppingPoll]
      have read := reads_boot_iff first
      by_cases boot : broadcast first &&& 0x000f = ecStateBoot
      · rw [if_neg (not_not.mpr boot)]
        have reached := read.mp boot
        constructor
        · exact .inl
        · rintro (mixed | ⟨notBooted, -⟩)
          · exact mixed
          · exact reached.resolve_right notBooted
      · rw [if_pos boot]
        obtain ⟨notMixed, notBooted⟩ := not_or.mp (mt read.mpr boot)
        simp [notMixed, notBooted]

theorem bootClear_iff (polls : Polls slaves) :
    BootClear polls ↔ ¬ Mixed (polls.stopping ecStateBoot) := by
  rw [Polls.stopping, stoppingPoll_mixed, BootClear]
  push Not
  rfl

theorem not_booted_of_mixed {states : NetworkStates slaves} (mixed : Mixed states) :
    ¬ ∀ slave, (states slave).al = .boot ∨ (states slave).al = .init := by
  intro all
  obtain ⟨slave, isPreOp⟩ := mixed.preOp
  rcases all slave with is | is <;> simp [isPreOp] at is

/-! ## The checks -/

theorem checkBoot_sound_iff (slavecount : Nat) (answer : Answer) (polls : Polls slaves) :
    InitializeSite.checkBoot.Sound
        (InitializeSite.checkBoot.next slavecount
          (InitializeSite.checkBoot.answered answer polls)) polls ↔
      BootClear polls := by
  rw [bootClear_iff]
  have state : (InitializeSite.checkBoot.answered answer polls).deviceState =
      broadcast (polls.stopping ecStateBoot) &&& 0x000f := rfl
  have read := reads_boot_iff (polls.stopping ecStateBoot)
  simp only [InitializeSite.Sound, InitializeSite.next, state]
  constructor
  · intro sound mixed
    refine not_booted_of_mixed mixed (sound ?_)
    rw [if_neg fun fails => fails.1 (read.mpr (.inl mixed))]
  · intro notMixed passes
    by_cases boot : broadcast (polls.stopping ecStateBoot) &&& 0x000f = ecStateBoot
    · exact ((read.mp boot).resolve_left notMixed).all
    · by_cases isInit : broadcast (polls.stopping ecStateBoot) &&& 0x000f = ecStateInit
      · exact fun slave => .inr (all_in_state (show AlState.init ≠ .boot by simp) isInit slave)
      · rw [if_pos ⟨boot, isInit⟩] at passes
        cases passes

theorem read_of_passed {read wanted : UInt16} {failed passed : Jump InitializeSite}
    (differ : failed ≠ passed) (passes : (if read ≠ wanted then failed else passed) = passed) :
    read = wanted := by
  by_contra other
  exact differ ((if_pos other).symm.trans passes)

/-- All other checks are passed only by the networks that they ask for. -/
theorem others_sound {site : InitializeSite} (notBoot : site ≠ .checkBoot) (slavecount : Nat)
    (answer : Answer) (polls : Polls slaves) :
    site.Sound (site.next slavecount (site.answered answer polls)) polls := by
  cases site with
  | checkBoot => exact absurd rfl notBoot
  | checkInit | checkInitAgain =>
      intro passes
      exact all_in_state (show AlState.init ≠ .boot by simp) (read_of_passed (by simp) passes)
  | checkPreOp =>
      intro passes
      refine all_in_state (show AlState.preOp ≠ .boot by simp) (read_of_passed ?_ passes)
      split <;> simp
  | checkSafeOp =>
      intro passes
      by_cases reached : broadcast (polls.stopping ecStateSafeOp) &&& 0x000f = ecStateSafeOp
      · have kept : (if broadcast (polls.stopping ecStateSafeOp) ≠ ecStateSafeOp
            then Jump.goto InitializeSite.readSafeOp else .done 0) = .done 0 :=
          (if_neg (not_not.mpr reached)).symm.trans passes
        exact all_in_safeOp (read_of_passed (by simp) kept)
      · cases (if_pos reached).symm.trans passes
  | _ =>
      intro returns
      rcases InitializeSite.next_done returns with ⟨is, -⟩ | ⟨-, is⟩
      · cases is
      · cases is

theorem sound_iff (state : ServerState) (event : NetworkEvent slaves) :
    ChecksSound state event ↔ BootCondition state event := by
  constructor
  · intro sound answer place isMain
    have here := sound .checkBoot answer place isMain
    exact (checkBoot_sound_iff ..).mp here
  · intro condition site answer place isMain
    by_cases boot : site = .checkBoot
    · subst boot
      exact (checkBoot_sound_iff ..).mpr (condition answer place isMain)
    · exact others_sound boot ..

/-! ## Runs -/

/-- For any number of slaves, whatever each check polls and in every interleaving with the other
threads: every check that is passed is right about every slave, exactly when no BOOT check ends
with slaves in PRE_OP beside slaves in INIT or BOOT. -/
theorem checks_sound_iff (events : List (NetworkEvent slaves)) :
    EachStep NetworkEvent.next ChecksSound events .start ↔
      EachStep NetworkEvent.next BootCondition events .start :=
  @eachStep_congr _ _ NetworkEvent.next (fun _ => True) ChecksSound BootCondition
    (fun state event _ => sound_iff state event) (fun _ _ _ _ _ _ => trivial) events .start trivial

def twoSlaves (first second : AlState) : NetworkEvent 2 :=
  ⟨.main ⟨2, 0, 0, 2, ⟨some 0, some 19⟩⟩, ⟨states, []⟩⟩
where
  states : NetworkStates 2 := fun slave => ⟨if slave = 0 then first else second, false⟩

/-- The start-up up to the BOOT check, with both slaves in INIT. -/
def bothInit : List (NetworkEvent 2) := List.replicate 8 (twoSlaves .init .init)

/-- A network that reaches each state that is asked for. -/
example : (run NetworkEvent.next (bothInit ++ twoSlaves .boot .init ::
    List.replicate 6 (twoSlaves .init .init) ++ List.replicate 2 (twoSlaves .preOp .preOp) ++
      [twoSlaves .safeOp .safeOp]) .start).map ServerState.initialized = some (some 0) := rfl

/-- One slave in PRE_OP and one in INIT pass for BOOT. -/
theorem mixed_passes_boot :
    (∃ state, run NetworkEvent.next (bothInit ++ [twoSlaves .preOp .init]) .start = some state ∧
        state.pc = .initializeEthercat .writeInitAgain) ∧
      ¬ EachStep NetworkEvent.next ChecksSound (bothInit ++ [twoSlaves .preOp .init]) .start := by
  refine ⟨⟨_, rfl, rfl⟩, ?_⟩
  intro sound
  have last := (eachStep_iff_split ..).mp sound bothInit (twoSlaves .preOp .init) [] _ rfl rfl
  have inBoot := last .checkBoot _ rfl rfl rfl 0
  revert inBoot
  decide

end WebserverEthercat.Startup
