import WebserverEthercat.Dump.MappingRun
import WebserverEthercat.Dump.Slaveinfo

/-!
# The lines of a CoE mapping

The sync managers come in order, so that behind the heading of SM3 there are
only rows and the headings of higher sync managers.
-/

set_option autoImplicit false

namespace WebserverEthercat

/-- What is printed about sync manager `iSM`. -/
def PrintedFor (slave : CoeSlave) (iSM : UInt8) : MapLine → Prop
  | .title => False
  | .workaround => iSM = 2
  | .heading other _ => other = iSM
  | .row row => (0 ≤ row.absBit ∧ row.absBit ≤ 7) ∧
      ∀ description, row.description = some description →
        ∃ index subindex, slave.objectEntry index subindex = some description

theorem mappedRows_printed (slave : CoeSlave) (mapoffset : Int) (iSM : UInt8)
    (entries : List MappedEntry) :
    ∀ bitoffset : Int, 0 ≤ bitoffset → ∀ row ∈ mappedRows slave mapoffset bitoffset entries,
      PrintedFor slave iSM (.row row) := by
  induction entries with
  | nil => exact fun _ _ row member => absurd member List.not_mem_nil
  | cons entry rest ih =>
      intro bitoffset positive row member
      rcases List.mem_cons.mp member with rfl | later
      · refine ⟨?_, fun description described => ?_⟩
        · have remainder := Int.emod_lt_of_pos bitoffset (show (0 : Int) < 8 by omega)
          have low := Int.emod_nonneg bitoffset (show (8 : Int) ≠ 0 by omega)
          simp only [mappedRow, Int.tmod_eq_emod_of_nonneg positive]
          omega
        · simp only [mappedRow] at described
          split at described
          · exact ⟨_, _, described⟩
          · cases described
      · exact ih _ (by omega) row later

theorem managerLines_printed (slave : CoeSlave) (placement : Placement)
    {bitoffset : Direction → Int} (positive : ∀ direction, 0 ≤ bitoffset direction) (iSM : UInt8) :
    ∀ line ∈ managerLines slave placement bitoffset iSM, PrintedFor slave iSM line := by
  intro line member
  rw [managerLines] at member
  rcases List.mem_append.mp member with warning | lines
  · split at warning
    · rename_i second
      rw [List.mem_singleton.mp warning]
      exact second.1
    · cases warning
  · split at lines
    · rename_i direction _
      rcases List.mem_cons.mp lines with rfl | row
      · rfl
      · obtain ⟨mapped, printed, rfl⟩ := List.mem_map.mp row
        exact mappedRows_printed slave _ iSM _ _ (positive direction) mapped printed
    · cases lines

theorem dumpLines_printed (slave : CoeSlave) (placement : Placement) (managers : List UInt8) :
    ∀ {bitoffset : Direction → Int}, (∀ direction, 0 ≤ bitoffset direction) →
      ∀ line ∈ dumpLines slave placement bitoffset managers,
        ∃ iSM ∈ managers, PrintedFor slave iSM line := by
  induction managers with
  | nil => exact fun _ line member => absurd member List.not_mem_nil
  | cons iSM rest ih =>
      intro bitoffset positive line member
      rcases List.mem_append.mp member with here | later
      · exact ⟨iSM, List.mem_cons_self, managerLines_printed slave placement positive iSM line here⟩
      · obtain ⟨other, inside, printed⟩ := ih (fun direction => by
          have := positive direction
          omega) line later
        exact ⟨other, List.mem_cons_of_mem _ inside, printed⟩

/-! ## The heading of SM3 -/

/-- The heading of the section that the inputs are taken from. -/
def inputsHeading : MapLine := .heading 3 .inputs

end WebserverEthercat
