import DepthGauge.Checkpoint.Table

/-!
# The built-in table

The checkpoints of the admin page, which apply if none are given.

## Main definitions

* `Table.adminPage`: the table of `adminPageEntries`.
-/

namespace DepthGauge

/-- Where the parts of the admin page start and end. -/
def adminPageEntries : List Checkpoint :=
  [⟨1592, "Main Return"⟩, ⟨1727, "Create Tab Start"⟩, ⟨1794, "Create Tab End"⟩,
    ⟨1797, "Discovery Tab Start"⟩, ⟨1962, "Discovery Tab End"⟩,
    ⟨1963, "Full Automation Tab Start"⟩, ⟨2417, "Full Automation Tab End"⟩,
    ⟨2420, "Manage Tab Start"⟩, ⟨2610, "Manage Tab End"⟩, ⟨2613, "Analytics Tab Start"⟩,
    ⟨2916, "Analytics Tab End"⟩, ⟨2918, "Social Tab Start"⟩]

/-- The built-in table. -/
def Table.adminPage : Table := (Table.ofEntries adminPageEntries).toOption.getD Table.empty

/-- The entries make a table, so the built-in table has all of them. -/
theorem Table.ofEntries_adminPageEntries :
    Table.ofEntries adminPageEntries = .ok Table.adminPage := by
  have h : (Table.ofEntries adminPageEntries).isOk = true := by cbv
  rw [Table.adminPage]
  cases hs : Table.ofEntries adminPageEntries with
  | error e => rw [hs] at h; cases h
  | ok t => rfl

end DepthGauge
