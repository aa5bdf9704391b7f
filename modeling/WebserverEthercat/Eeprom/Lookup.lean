import WebserverEthercat.Eeprom.CachedReads
import WebserverEthercat.Eeprom.Config
import WebserverEthercat.Eeprom.Image

/-!
# Copied configurations

The SII is constant for a slave identity, so a slave that is copied from an
earlier one is configured as if its own SII was read.
-/

set_option autoImplicit false

namespace WebserverEthercat.Eeprom

open Reads

/-- The bytes that `ecx_siigetbyte` returns for a slave. -/
def siiBytesOf (contents : UInt16 → UInt8) (a : UInt16) : UInt8 :=
  if a < 4096 then contents a else 0xff

/-- What was known of the slave before its SII. -/
def Slave.identity (slave : Slave) :
    UInt32 × UInt32 × UInt32 × UInt16 × UInt16 × UInt16 × UInt16 :=
  (slave.eepMan, slave.eepId, slave.eepRev, slave.mbxWo, slave.mbxL, slave.mbxRo, slave.mbxRl)

/-- What is summed up. -/
def Slave.sums (slave : Slave) : UInt8 × UInt16 := (slave.blockLRW, slave.ebuscurrent)

def Master.add (master : Master) (slave : Slave) : Master where
  blockLRW := if slave.blockLRW > 0 then master.blockLRW + 1 else master.blockLRW
  ebuscurrent := master.ebuscurrent + slave.ebuscurrent

theorem Master.add_congr (master : Master) {first second : Slave} (same : first.sums = second.sums) :
    master.add first = master.add second := by
  obtain ⟨blocked, current⟩ := Prod.mk.inj same
  rw [add, add, blocked, current]

/-! ## What the SII leaves alone -/

/-- The slave's own fields and the summed ones are kept. -/
def Keeps (before after : Slave) : Prop :=
  after.identity = before.identity ∧ after.sums = before.sums

theorem Keeps.trans {first second third : Slave} (one : Keeps first second)
    (two : Keeps second third) : Keeps first third :=
  ⟨two.1.trans one.1, two.2.trans one.2⟩

section Keeps

variable {contents : UInt16 → UInt8} {turns : Nat} {slave after : Slave} {master : Master}

@[simp] theorem evaluate_siiByte (a : UInt16) :
    evaluate contents (siiByte a) = some (contents a) := rfl

theorem evaluate_siiWord (a : UInt16) :
    evaluate contents (siiWord a) =
      some ((contents a).toUInt16 + ((contents (a + 1)).toUInt16 <<< 8)) := by
  simp [siiWord]

theorem readName_keeps (ran : evaluate contents (readName turns slave) = some after) :
    Keeps slave after := by
  rw [readName, evaluate_bind] at ran
  obtain ⟨found, -, ran⟩ := Option.bind_eq_some_iff.mp ran
  split at ran
  · rw [evaluate_bind] at ran
    obtain ⟨cells, -, ran⟩ := Option.bind_eq_some_iff.mp ran
    cases ran
    exact ⟨rfl, rfl⟩
  · cases ran
    exact ⟨rfl, rfl⟩

theorem readSms_keeps (ran : evaluate contents (readSms turns slave) = some after) :
    Keeps slave after := by
  rw [readSms, evaluate_bind] at ran
  obtain ⟨eepSm, -, ran⟩ := Option.bind_eq_some_iff.mp ran
  split at ran
  · rw [evaluate_bind] at ran
    obtain ⟨sm, -, ran⟩ := Option.bind_eq_some_iff.mp ran
    cases ran
    exact ⟨rfl, rfl⟩
  · cases ran
    exact ⟨rfl, rfl⟩

theorem readFmmus_keeps (ran : evaluate contents (readFmmus turns slave) = some after) :
    Keeps slave after := by
  rw [readFmmus, evaluate_bind] at ran
  obtain ⟨eepFmmu, -, ran⟩ := Option.bind_eq_some_iff.mp ran
  split at ran
  · cases ran
    exact ⟨rfl, rfl⟩
  · cases ran
    exact ⟨rfl, rfl⟩

/-- The slave's entry is cleared when its SII's turn comes. -/
def Fresh (slave : Slave) : Prop := slave.sums = (0, 0)

theorem identify_fresh (contents : UInt16 → UInt8) : Fresh (identify contents) := rfl

/-- The general section: the master's sums grow by the slave's. -/
theorem readGeneral_adds (fresh : Fresh slave) (master : Master) :
    evaluate contents (readGeneral turns slave master) =
      (evaluate contents (readGeneral turns slave ⟨0, 0⟩)).map fun read =>
        (read.1, master.add read.1) := by
  obtain ⟨blocked, current⟩ := Prod.mk.inj fresh
  simp only [readGeneral, evaluate_bind]
  cases evaluate contents (siifind turns ectSiiGeneral) with
  | none => rfl
  | some ssigen =>
      simp only [Option.bind_some]
      by_cases present : ssigen ≠ 0
      · simp only [if_pos present, evaluate_bind, evaluate_siiByte, evaluate_siiWord,
          Option.bind_some, evaluate_pure, Option.map_some, Master.add, blocked]
        by_cases flag : contents (ssigen + 0x0d) &&& 0x02 > 0
        · simp [flag]
        · simp [flag]
      · simp [present, Master.add, blocked, current]

theorem readGeneral_identity {read : Slave × Master} (fresh : Fresh slave)
    (ran : evaluate contents (readGeneral turns slave master) = some read) :
    read.1.identity = slave.identity ∧ (read.1.blockLRW = 0 ∨ read.1.blockLRW = 1) := by
  obtain ⟨blocked, -⟩ := Prod.mk.inj fresh
  simp only [readGeneral, evaluate_bind] at ran
  obtain ⟨ssigen, -, ran⟩ := Option.bind_eq_some_iff.mp ran
  by_cases present : ssigen ≠ 0
  · simp only [if_pos present, evaluate_bind, evaluate_siiByte, evaluate_siiWord,
      Option.bind_some, evaluate_pure] at ran
    cases ran
    refine ⟨rfl, ?_⟩
    by_cases flag : contents (ssigen + 0x0d) &&& 0x02 > 0
    · exact .inr (if_pos flag)
    · exact .inl ((if_neg flag).trans blocked)
  · rw [if_neg present] at ran
    cases ran
    exact ⟨rfl, .inl blocked⟩

end Keeps

/-! ## A slave alone -/

/-- What stands in the slave's entry behind the sections. -/
def readAlone (turns : Nat) (contents : UInt16 → UInt8) (slave : Slave) : Option Slave :=
  (evaluate contents (readSii turns slave ⟨0, 0⟩)).map Prod.fst

section Alone

variable {contents : UInt16 → UInt8} {turns : Nat} {slave after : Slave}

theorem readSii_eq (fresh : Fresh slave) (master : Master) :
    evaluate contents (readSii turns slave master) =
      (readAlone turns contents slave).map fun after => (after, master.add after) := by
  simp only [readAlone, readSii, evaluate_bind, readGeneral_adds fresh master]
  cases evaluate contents (readGeneral turns slave ⟨0, 0⟩) with
  | none => rfl
  | some read =>
      simp only [Option.map_some, Option.bind_some]
      cases named : evaluate contents (readName turns read.1) with
      | none => rfl
      | some second =>
          simp only [Option.bind_some]
          cases managed : evaluate contents (readSms turns second) with
          | none => rfl
          | some third =>
              simp only [Option.bind_some]
              cases mapped : evaluate contents (readFmmus turns third) with
              | none => rfl
              | some last =>
                  have keeps := ((readName_keeps named).trans (readSms_keeps managed)).trans
                    (readFmmus_keeps mapped)
                  simp only [Option.bind_some, evaluate_pure, Option.map_some,
                    Master.add_congr master keeps.2]

theorem readAlone_identity (fresh : Fresh slave)
    (ran : readAlone turns contents slave = some after) :
    after.identity = slave.identity ∧ (after.blockLRW = 0 ∨ after.blockLRW = 1) := by
  rw [readAlone, Option.map_eq_some_iff] at ran
  obtain ⟨⟨last, master⟩, ran, rfl⟩ := ran
  simp only [readSii, evaluate_bind] at ran
  obtain ⟨read, general, ran⟩ := Option.bind_eq_some_iff.mp ran
  obtain ⟨second, named, ran⟩ := Option.bind_eq_some_iff.mp ran
  obtain ⟨third, managed, ran⟩ := Option.bind_eq_some_iff.mp ran
  obtain ⟨fourth, mapped, ran⟩ := Option.bind_eq_some_iff.mp ran
  cases ran
  have keeps := ((readName_keeps named).trans (readSms_keeps managed)).trans
    (readFmmus_keeps mapped)
  obtain ⟨same, flag⟩ := readGeneral_identity fresh general
  refine ⟨keeps.1.trans same, ?_⟩
  rw [(Prod.mk.inj keeps.2).1]
  exact flag

/-! ## The default mailbox -/

theorem defaultMailbox_keeps (slave : Slave) : Keeps slave (defaultMailbox slave) := by
  rw [defaultMailbox]
  split <;> exact ⟨rfl, rfl⟩

theorem defaultSm_other (sm : List SyncManager) {n other : Nat} (different : n ≠ other)
    (mailbox : SyncManager) : (defaultSm sm n mailbox)[other]? = sm[other]? := by
  rw [defaultSm]
  split
  · exact List.getElem?_set_ne different
  · rfl

theorem defaultSm_eq_self {sm : List SyncManager} {n : Nat}
    (settled : sm[n]?.any (fun old => old.startAddr = 0) = false) (mailbox : SyncManager) :
    defaultSm sm n mailbox = sm := by
  simp [defaultSm, settled]

theorem defaultSm_settled (sm : List SyncManager) (n : Nat) (mailbox : SyncManager)
    (real : mailbox.startAddr ≠ 0) :
    ((defaultSm sm n mailbox)[n]?.any fun old => old.startAddr = 0) = false := by
  rw [defaultSm]
  split
  · rename_i zero
    obtain ⟨old, present, -⟩ := (Option.any_eq_true _ _).mp zero
    rw [List.getElem?_set_self (List.getElem?_eq_some_iff.mp present).1]
    simpa using real
  · exact Bool.eq_false_iff.mpr ‹_›

theorem defaultMailbox_again (slave : Slave) :
    defaultMailbox (defaultMailbox slave) = defaultMailbox slave := by
  by_cases mailbox : slave.mbxL > 0
  · simp only [defaultMailbox, if_pos mailbox]
    have first := defaultSm_settled slave.sm 0 ⟨0x1000, 0x0080, ecDefaultMbxSm0⟩
      (by decide)
    rw [← defaultSm_other _ (by decide : 1 ≠ 0) ⟨0x1080, 0x0080, ecDefaultMbxSm1⟩] at first
    have second := defaultSm_settled (defaultSm slave.sm 0 ⟨0x1000, 0x0080, ecDefaultMbxSm0⟩) 1
      ⟨0x1080, 0x0080, ecDefaultMbxSm1⟩ (by decide)
    rw [defaultSm_eq_self first, defaultSm_eq_self second]
  · simp only [defaultMailbox, if_neg mailbox]

end Alone

/-! ## Copies -/

/-- The slave as its own SII describes it. -/
def configured (turns : Nat) (contents : UInt16 → UInt8) : Option Slave :=
  (readAlone turns (siiBytesOf contents) (identify contents)).map defaultMailbox

section Copies

variable {contents : UInt16 → UInt8} {turns : Nat} {slave prev : Slave}

theorem configured_spec (ran : configured turns contents = some slave) :
    slave.identity = (identify contents).identity ∧
      (slave.blockLRW = 0 ∨ slave.blockLRW = 1) ∧ defaultMailbox slave = slave := by
  obtain ⟨last, alone, rfl⟩ := Option.map_eq_some_iff.mp ran
  obtain ⟨same, flag⟩ := readAlone_identity (identify_fresh contents) alone
  have keeps := defaultMailbox_keeps last
  refine ⟨keeps.1.trans same, ?_, defaultMailbox_again last⟩
  rw [(Prod.mk.inj keeps.2).1]
  exact flag

theorem copySii_eq (ran : configured turns contents = some prev) (master : Master) :
    copySii prev (identify contents) master = (prev, master.add prev) := by
  obtain ⟨same, flag, -⟩ := configured_spec ran
  simp only [Slave.identity, Prod.mk.injEq] at same
  obtain ⟨eepMan, eepId, eepRev, mbxWo, mbxL, mbxRo, mbxRl⟩ := same
  have blocked : (if prev.blockLRW > 0 then 1 else (identify contents).blockLRW) =
      prev.blockLRW := by
    rcases flag with zero | one
    · rw [zero]
      rfl
    · rw [one]
      rfl
  rw [copySii, blocked]
  refine Prod.ext ?_ rfl
  cases prev
  simp only [Slave.mk.injEq, and_true]
  exact ⟨eepMan.symm, eepId.symm, eepRev.symm, mbxWo.symm, mbxL.symm, mbxRo.symm, mbxRl.symm⟩

theorem sameId_congr {first second third fourth : Slave} (one : first.identity = second.identity)
    (two : third.identity = fourth.identity) : sameId first third = sameId second fourth := by
  simp only [Slave.identity, Prod.mk.injEq] at one two
  simp only [sameId, one, two]

/-- The turn of a slave behind slaves that are configured as their own SII says. -/
theorem configSlave_eq {earlier : List Slave} (master : Master)
    (before : ∀ prev ∈ earlier, ∃ others, configured turns others = some prev ∧
      (sameId (identify contents) (identify others) = true → others = contents)) :
    evaluate (siiBytesOf contents) (configSlave turns earlier (identify contents) master) =
      (configured turns contents).map fun slave => (slave, master.add slave) := by
  rw [configSlave]
  cases found : earlier.find? (sameId (identify contents)) with
  | none =>
      simp only [evaluate_bind, readSii_eq (identify_fresh contents), configured]
      cases readAlone turns (siiBytesOf contents) (identify contents) with
      | none => rfl
      | some last =>
          simp only [Option.map_some, Option.bind_some, evaluate_pure,
            Master.add_congr master (defaultMailbox_keeps last).2]
  | some prev =>
      obtain ⟨others, ran, same⟩ := before prev (List.mem_of_find?_eq_some found)
      have id : sameId (identify contents) prev = true := List.find?_some found
      rw [sameId_congr rfl (configured_spec ran).1] at id
      rw [same id] at ran
      simp only [evaluate_bind, evaluate_pure, Option.bind_some, copySii_eq ran,
        (configured_spec ran).2.2, ran, Option.map_some]

end Copies

/-! ## All slaves -/

theorem evaluate_onSlave {Result : Type} (contents : EepromContents) (number : UInt16)
    (program : SiiRead Result) :
    evaluate (byteAt contents) (onSlave number program) =
      evaluate (siiBytesOf (contents number)) program :=
  Program.run_relabel _ _ _

/-- What the comment on `ecx_lookup_prev_sii` says of slaves with these numbers. -/
def SiiConstant (contents : EepromContents) (count : Nat) : Prop :=
  ∀ first second : Nat, first ∈ List.range' 1 count → second ∈ List.range' 1 count →
    sameId (identify (contents (UInt16.ofNat first))) (identify (contents (UInt16.ofNat second))) =
      true →
    contents (UInt16.ofNat second) = contents (UInt16.ofNat first)

def configuredAt (turns : Nat) (contents : EepromContents) (number : Nat) : Option Slave :=
  configured turns (contents (UInt16.ofNat number))

theorem configSlaves_from {turns count : Nat} {contents : EepromContents}
    (constant : SiiConstant contents count) (left : Nat) :
    ∀ (earlier : List Slave) (master : Master), earlier.length + left = count →
      (∀ prev ∈ earlier, ∃ number ∈ List.range' 1 count,
        configuredAt turns contents number = some prev) →
      evaluate (byteAt contents)
          (configSlaves turns (fun number => identify (contents number)) left earlier master) =
        ((List.range' (earlier.length + 1) left).mapM (configuredAt turns contents)).map
          fun slaves => (earlier ++ slaves, slaves.foldl Master.add master) := by
  induction left with
  | zero =>
      intro earlier master _ _
      simp [configSlaves]
  | succ left ih =>
      intro earlier master total before
      have here : earlier.length + 1 ∈ List.range' 1 count := by
        rw [List.mem_range'_1]
        omega
      have turn := @configSlave_eq (contents (UInt16.ofNat (earlier.length + 1))) turns earlier
        master fun prev member => by
          obtain ⟨number, inside, ran⟩ := before prev member
          exact ⟨_, ran, constant _ _ here inside⟩
      simp only [configSlaves, evaluate_bind, evaluate_onSlave, turn, List.range'_succ,
        List.mapM_cons, Option.bind_eq_bind]
      have own : configuredAt turns contents (earlier.length + 1) =
        configured turns (contents (UInt16.ofNat (earlier.length + 1))) := rfl
      rw [own]
      cases ran : configured turns (contents (UInt16.ofNat (earlier.length + 1))) with
      | none => rfl
      | some slave =>
          have rest := ih (earlier ++ [slave]) (master.add slave)
            (by rw [List.length_append, List.length_singleton]; omega) fun prev member => by
              rcases List.mem_append.mp member with old | new
              · exact before prev old
              · rw [List.mem_singleton.mp new]
                exact ⟨_, here, ran⟩
          rw [List.length_append, List.length_singleton] at rest
          simp only [Option.map_some, Option.bind_some, rest]
          cases (List.range' (earlier.length + 1 + 1) left).mapM (configuredAt turns contents) with
          | none => rfl
          | some slaves => simp

/-- `ecx_config_init` gives every slave what the slave's own SII says, whether it reads or
copies it, and the master the sums over all slaves. -/
theorem copies_agree (turns count : Nat) (contents : EepromContents)
    (constant : SiiConstant contents count) :
    evaluate (byteAt contents)
        (configSlaves turns (fun number => identify (contents number)) count [] ⟨0, 0⟩) =
      ((List.range' 1 count).mapM (configuredAt turns contents)).map
        fun slaves => (slaves, slaves.foldl Master.add ⟨0, 0⟩) :=
  configSlaves_from constant count [] ⟨0, 0⟩ (Nat.zero_add count)
    fun _ member => absurd member List.not_mem_nil

/-- Three drives of one kind. -/
theorem copies_agree_sameKind :
    (∃ slaves, evaluate (byteAt fun _ => driveContents)
        (configSlaves 9 (fun _ => identify driveContents) 3 [] ⟨0, 0⟩) =
      some (slaves, ⟨3, 1500⟩)) ∧
    evaluate (byteAt fun _ => driveContents)
        (configSlaves 9 (fun _ => identify driveContents) 3 [] ⟨0, 0⟩) =
      ((List.range' 1 3).mapM (configuredAt 9 fun _ => driveContents)).map
        fun slaves => (slaves, slaves.foldl Master.add ⟨0, 0⟩) :=
  ⟨⟨_, rfl⟩, copies_agree 9 3 (fun _ => driveContents) fun _ _ _ _ _ => rfl⟩

end WebserverEthercat.Eeprom
