import SequenceChart.Proofs.Script.Assembly

/-! Settings of a script stand apart: where they are read changes nothing in how the rest is read. -/

namespace SequenceChart

namespace Assembly

def settingNodes (statements : List (Nat × Statement)) : List Node :=
  statements.filterMap fun s =>
    match s.2 with
    | .leaf (.instruction setting) => some (.leaf s.1 (.instruction setting))
    | _ => none

def addSettings (a : Assembly) (added : List Node) : Assembly := { a with settings := a.settings ++ added }

theorem addSettings_addSettings (a : Assembly) (first second : List Node) :
    (a.addSettings first).addSettings second = a.addSettings (first ++ second) := by
  unfold addSettings
  rw [List.append_assoc]

theorem push_addSettings (a : Assembly) (added : List Node) (node : Node) :
    (a.addSettings added).push node = (a.push node).addSettings added := by
  obtain ⟨settings, nodes, opened⟩ := a
  cases opened <;> rfl

theorem step_addSettings (a : Assembly) (added : List Node) (line : Nat) {s : Statement}
    (h : s.isSetting = false) :
    (a.addSettings added).step line s = (a.step line s).map (addSettings · added) := by
  obtain ⟨settings, nodes, opened⟩ := a
  cases s with
  | leaf content =>
    cases content with
    | instruction setting => contradiction
    | _ => exact congrArg Except.ok (push_addSettings _ _ _)
  | opening heading => rfl
  | branch heading last =>
    cases opened with
    | nil => rfl
    | cons b outer =>
      simp only [step, addSettings]
      cases b.branch heading last <;> rfl
  | close =>
    cases opened with
    | nil => rfl
    | cons b outer => exact congrArg Except.ok (push_addSettings ⟨settings, nodes, outer⟩ added b.toNode)

theorem run_addSettings (added : List Node) {statements : List (Nat × Statement)}
    (h : ∀ s ∈ statements, s.2.isSetting = false) (a : Assembly) :
    (a.addSettings added).run statements = (a.run statements).map (addSettings · added) := by
  induction statements generalizing a with
  | nil => rfl
  | cons s later ih =>
    have hall := List.forall_mem_cons.mp h
    rw [run_cons, run_cons, step_addSettings a added s.1 hall.1]
    cases a.step s.1 s.2 with
    | error fault => rfl
    | ok after => exact ih hall.2 after

theorem settings_push (a : Assembly) (node : Node) : (a.push node).settings = a.settings := by
  unfold push
  split <;> rfl

theorem settings_step {a after : Assembly} {line : Nat} {s : Statement} (hs : s.isSetting = false)
    (h : a.step line s = .ok after) : after.settings = a.settings := by
  obtain ⟨settings, nodes, opened⟩ := a
  cases s with
  | leaf content =>
    cases content with
    | instruction setting => contradiction
    | _ => exact Except.ok.inj h ▸ settings_push _ _
  | opening heading => exact Except.ok.inj h ▸ rfl
  | branch heading last =>
    cases opened with
    | nil => contradiction
    | cons b outer =>
      obtain ⟨branched, _, rfl⟩ := map_eq_ok.mp h
      rfl
  | close =>
    cases opened with
    | nil => contradiction
    | cons b outer => exact Except.ok.inj h ▸ settings_push _ _

theorem settings_run {statements : List (Nat × Statement)} (hs : ∀ s ∈ statements, s.2.isSetting = false)
    {a after : Assembly} (h : a.run statements = .ok after) : after.settings = a.settings := by
  induction statements generalizing a with
  | nil => exact congrArg settings (Except.ok.inj h).symm
  | cons s later ih =>
    have hall := List.forall_mem_cons.mp hs
    rw [run_cons, bind_eq_ok] at h
    obtain ⟨middle, hstep, hrun⟩ := h
    exact (ih hall.2 hrun).trans (settings_step hall.1 hstep)

theorem exists_setting {s : Statement} (h : s.isSetting = true) :
    ∃ setting, s = .leaf (.instruction setting) := by
  cases s with
  | leaf content =>
    cases content with
    | instruction setting => exact ⟨setting, rfl⟩
    | _ => contradiction
  | _ => contradiction

theorem settingNodes_cons (line : Nat) {s : Statement} (h : s.isSetting = false)
    (later : List (Nat × Statement)) : settingNodes ((line, s) :: later) = settingNodes later := by
  cases s with
  | leaf content =>
    cases content with
    | instruction setting => contradiction
    | _ => rfl
  | _ => rfl

theorem settingNodes_eq_nil {statements : List (Nat × Statement)} (h : ∀ s ∈ statements, s.2.isSetting = false) :
    settingNodes statements = [] := by
  induction statements with
  | nil => rfl
  | cons s later ih =>
    obtain ⟨hs, hlater⟩ := List.forall_mem_cons.mp h
    rw [settingNodes_cons s.1 hs, ih hlater]

/-- Settings can be read after everything else. -/
theorem run_filter (a : Assembly) (statements : List (Nat × Statement)) :
    a.run statements =
      (a.run (statements.filter (!·.2.isSetting))).map (addSettings · (settingNodes statements)) := by
  induction statements generalizing a with
  | nil =>
    have hnil : a.addSettings [] = a := by
      unfold addSettings
      rw [List.append_nil]
    exact congrArg Except.ok hnil.symm
  | cons s later ih =>
    obtain ⟨line, s⟩ := s
    cases hs : s.isSetting with
    | false =>
      rw [List.filter_cons_of_pos (Bool.not_eq_true' _ ▸ hs), run_cons, run_cons, settingNodes_cons line hs]
      cases a.step line s with
      | error fault => rfl
      | ok after => exact ih after
    | true =>
      obtain ⟨setting, rfl⟩ := exists_setting hs
      let node : Node := .leaf line (.instruction setting)
      have hstep : a.step line (.leaf (.instruction setting)) = .ok (a.addSettings [node]) := rfl
      have hrest : ∀ s ∈ later.filter (!·.2.isSetting), s.2.isSetting = false := by
        intro s hs
        exact Bool.not_eq_true' _ ▸ (List.mem_filter.mp hs).2
      rw [List.filter_cons_of_neg (by simp [hs]), run_cons, hstep]
      change (a.addSettings [node]).run later = _
      rw [ih, run_addSettings [node] hrest]
      cases a.run (later.filter (!·.2.isSetting)) with
      | error fault => rfl
      | ok after => exact congrArg Except.ok (addSettings_addSettings after [node] (settingNodes later))

end Assembly

end SequenceChart
