import EnumMacros.Generate
import EnumMacros.Proofs.Files.Running
import EnumMacros.Proofs.Header.Placing

/-! Where a single header goes. A run prints the header and leaves the disk alone, or, if no step
has failed, it has left the header in a file and every other file as it was. -/

namespace EnumMacros

/-- A text has gone to an output and nowhere else. -/
def Output.Receives (output : Output) (text : String) (before : Disk) (o : Outcome Disk) : Prop :=
  match output with
  | .stdout => o.printed = text ∧ o.disk = before
  | .file path =>
    o.printed = "" ∧ ∃ place, o.disk.placeOf? path = some place ∧
      o.disk.file? place = some text ∧
      ∀ other, other ≠ place → o.disk.file? other = before.file? other
  | .tree _ => False

namespace Job

theorem writes_prepare (path : String) : Plan.writes (prepare path) = [] := by
  rw [prepare]
  split
  · split_ifs <;> rfl
  · rfl

theorem silent_prepare (path text : String) : .print text ∉ prepare path := by
  rw [prepare]
  split
  · split_ifs <;> simp
  · simp

/-- What is printed always arrives. What goes to a file does if no step fails. -/
theorem receives_run {output : Output} (single : ∀ tree, output ≠ .tree tree) (header : Single)
    (events : List Event) (summary : Summary) (disk : Disk)
    (fine : ∀ path, output = .file path → ∀ fault,
      (Plan.run ⟨events.map .report ++ (singleActions header output).1,
        .finished summary⟩ disk).result ≠ .failed fault) :
    (Plan.run ⟨events.map .report ++ (singleActions header output).1, .finished summary⟩
      disk).result = .finished summary ∧
    output.Receives header.text disk (Plan.run
      ⟨events.map .report ++ (singleActions header output).1, .finished summary⟩ disk) := by
  match output, single with
  | .tree tree, single => exact absurd rfl (single tree)
  | .stdout, _ =>
    simp only [Plan.run, Plan.performAll_reports, singleActions, Plan.performAll, Plan.perform,
      Plan.performAll_map_report, Output.Receives, Plan.endResult]
    exact ⟨trivial, String.empty_append, trivial⟩
  | .file path, _ =>
    have writes : Plan.writes (events.map .report ++ (singleActions header (.file path)).1) =
        [(path, header.text)] := by
      simp only [singleActions, Tree.writes_append, Tree.writes_reports, writes_prepare]
      rfl
    have silent (text : String) :
        .print text ∉ events.map .report ++ (singleActions header (.file path)).1 := by
      simp [singleActions, silent_prepare]
    obtain ⟨result, keeps⟩ := Plan.keeps_performAll _ _ (fine path rfl)
    rw [writes] at keeps
    obtain ⟨place, found⟩ := keeps.placed _ (List.mem_singleton_self _)
    refine ⟨result, Plan.printed_performAll silent _, place, found,
      keeps.written (List.pairwise_singleton _ _) _ (List.mem_singleton_self _) _ found,
      fun other apart => keeps.others other fun w member same => apart ?_⟩
    obtain rfl := List.mem_singleton.1 member
    exact Option.some.inj (same.symm.trans found)

end Job

end EnumMacros
