import VerticalSlice.Command.Program
import VerticalSlice.Proofs.Check.Locality

/-!
# The gate and the single checks

The gate runs the same checks as the commands of the checks, but goes on where one of them fails.
Called with the same arguments, it writes what each of them writes, one after the other, and fails
if one of them does (`gate_gathers`).

All of them come to the same workspace, since they know the same switches and take no operand
(`Setting.run_eq`). On it a check that comes to a verdict, or says why there is no table of routes, writes
what is told on the way and one finding (`runCheck_eq`); a row of checks writes these one after the
other (`runChecks_eq`), so the statuses of the single commands can be read off the rows of the gate.
-/

namespace VerticalSlice.Command

/-! ## The arguments -/

theorem Arguments.eq_ok_of_map_behind {given switches : List (Switch × Text)} {operands : List Text}
    {result : Except UsageFault Arguments}
    (h : result.map (behind given) = .ok ⟨switches, operands⟩) :
    ∃ later, result = .ok ⟨later, operands⟩ ∧ switches = given ++ later := by
  cases result with
  | error fault => cases h
  | ok arguments =>
    obtain ⟨later, ends⟩ := arguments
    simp only [Except.map, behind, Except.ok.injEq, mk.injEq] at h
    exact ⟨later, by rw [h.2], h.1.symm⟩

/-- Behind switches that are complete, the first argument that is no switch begins the operands. -/
theorem Arguments.scan_append {known : List Switch} {name : Text} (rest : List Text)
    (hname : beginsSwitch name = false) (hne : name ≠ ("--" : Text)) {front : List Text}
    {switches : List (Switch × Text)} (hfront : scan known false front = .ok ⟨switches, []⟩) :
    scan known false (front ++ name :: rest) = .ok ⟨switches, name :: rest⟩ := by
  fun_induction scan known false front generalizing switches with
  | case1 =>
    cases hfront
    rw [List.nil_append, scan, if_neg hne, hname]
    rfl
  | case2 =>
    cases hfront
    rw [List.cons_append, scan, if_pos rfl]
    rfl
  | case3 | case5 | case8 => cases hfront
  | case4 argument front hdashes hbegins given hread ih =>
    obtain ⟨later, hlater, rfl⟩ := eq_ok_of_map_behind hfront
    rw [List.cons_append, scan, if_neg hdashes, if_pos hbegins, hread]
    dsimp only
    rw [ih hlater]
    rfl
  | case6 argument hdashes hbegins given waiting hread value front ih =>
    obtain ⟨later, hlater, rfl⟩ := eq_ok_of_map_behind hfront
    rw [List.cons_append, scan, if_neg hdashes, if_pos hbegins, hread]
    dsimp only [List.cons_append]
    rw [ih hlater]
    rfl
  | case7 => contradiction

theorem ofName?_name (command : Command) : ofName? command.name = some command := by
  cases command with
  | check which => cases which <;> decide
  | gate | generate => decide

theorem not_beginsSwitch_name (command : Command) : Arguments.beginsSwitch command.name = false := by
  cases command with
  | check which => cases which <;> decide
  | gate | generate => decide

theorem name_ne_dashes (command : Command) : command.name ≠ ("--" : Text) := by
  cases command with
  | check which => cases which <;> decide
  | gate | generate => decide

/-- Arguments in front of a command and behind it that are understood where the command takes no
operands, and the workspace that they lead to. -/
structure Setting (front options : List Text) (tree : FileTree) (here : Path) where
  switches : List (Switch × Text)
  given : Arguments
  start : Path
  context : Context
  scan_front : Arguments.scan programSwitches false front = .ok ⟨switches, []⟩
  no_answer : Call.answer? ⟨switches, []⟩ = none
  scan_options : Arguments.scan Command.gate.switches true options = .ok given
  no_help : given.has .help = false
  no_operands : given.operands = []
  start_eq : startFolder tree here given = .ok start
  context_eq : Workspace.context tree here start (given.value? .appProject) = .ok context

namespace Setting

variable {front options : List Text} {tree : FileTree} {here : Path}
  (setting : Setting front options tree here)

/-- How loud a command in the setting is. -/
def loudness : Loudness := Call.loudnessOf ⟨setting.switches, []⟩

/-- What is told while the workspace is looked for. -/
def told : List Message := setting.loudness.messages (Workspace.notices tree here setting.start)

/-- The call of a command in the setting. -/
def call (command : Command) : Call :=
  ⟨command, command.usage (programName ++ [' ']), setting.loudness, setting.given⟩

theorem ofProgram_eq {command : Command} (hcommand : command.switches = Command.gate.switches) :
    Call.ofProgram (front ++ command.name :: options) = .ok (setting.call command) := by
  have hscan := Arguments.scan_append options (not_beginsSwitch_name command)
    (name_ne_dashes command) setting.scan_front
  have hanswer : Call.answer? ⟨setting.switches, command.name :: options⟩ = none :=
    setting.no_answer
  rw [Call.ofProgram, if_neg (by simp), hscan]
  dsimp only
  rw [hanswer]
  dsimp only
  rw [Call.ofOperands, ofName?_name]
  dsimp only
  rw [Call.ofArguments, hcommand, setting.scan_options]
  dsimp only
  rw [setting.no_help]
  rfl

/-- A command in the setting does its job on the workspace of the setting. -/
theorem run_eq {command : Command} {job : Job} (hcommand : command.switches = Command.gate.switches)
    (hjob : command.job setting.given = .ok job) :
    run (front ++ command.name :: options) tree here =
      ((job.run setting.loudness setting.context tree).1,
        (job.run setting.loudness setting.context tree).2.after setting.told) := by
  have horder : command.order tree here setting.given =
      .ok ⟨job, setting.start, setting.given.value? .appProject⟩ := by
    rw [order, setting.start_eq, hjob]
    rfl
  rw [run, setting.ofProgram_eq hcommand, runCall, Call.run]
  dsimp only [call]
  rw [horder]
  dsimp only
  rw [Order.run]
  dsimp only
  rw [setting.context_eq]
  rfl

theorem run_check (check : Check) :
    run (front ++ (Command.check check).name :: options) tree here =
      (tree, (checkOutcome setting.loudness setting.context tree check).after setting.told) := by
  have hjob : (Command.check check).job setting.given = .ok (.check check) := by
    rw [job, setting.no_operands]
    rfl
  exact setting.run_eq (by rfl) hjob

theorem run_gate : run (front ++ Command.gate.name :: options) tree here =
    (tree, (gateOutcome setting.loudness setting.context tree).after setting.told) := by
  have hjob : Command.gate.job setting.given = .ok .gate := by
    rw [job, setting.no_operands]
    rfl
  exact setting.run_eq rfl hjob

end Setting

/-! ## The checks -/

/-- What a check has to say in the end: its report, or why it comes to no verdict. -/
def finding (context : Context) (tree : FileTree) (check : Check) : Message :=
  match check.run context tree with
  | .ok verdict => reportMessage verdict
  | .error fault => ⟨.err, Text.concat ["Error: ", fault.message]⟩

/-- How a check comes out; one without a verdict has failed. -/
def row (context : Context) (tree : FileTree) (check : Check) : Row :=
  match check.run context tree with
  | .ok verdict => verdictRow check verdict
  | .error _ => ⟨check, false, none⟩

/-- What a check writes: what is told on the way, and what it has to say in the end. -/
def block (loudness : Loudness) (context : Context) (tree : FileTree) (check : Check) : List Message :=
  loudness.messages (check.notices context tree) ++ [finding context tree check]

/-- A check without a verdict is one that finds no table of routes. -/
def Concludes (context : Context) (tree : FileTree) (check : Check) : Prop :=
  ∀ fault, check.run context tree = .error fault → ∃ cause, fault = .table cause

section Checks

variable {context : Context} {tree : FileTree} (loudness : Loudness)

theorem row_check (check : Check) : (row context tree check).check = check := by
  unfold row
  split <;> rfl

theorem runCheck_eq {check : Check} (h : Concludes context tree check) :
    runCheck loudness context tree check =
      (block loudness context tree check, .ok (row context tree check)) := by
  unfold runCheck block finding row
  cases hrun : check.run context tree with
  | ok verdict => rfl
  | error fault =>
    obtain ⟨cause, rfl⟩ := h fault hrun
    rfl

theorem checkOutcome_eq {check : Check} (h : Concludes context tree check) :
    checkOutcome loudness context tree check =
      ⟨block loudness context tree check,
        .status (if (row context tree check).passed then 0 else 1)⟩ := by
  rw [checkOutcome, runCheck_eq loudness h]

theorem runChecks_eq (checks : List Check) (h : ∀ check ∈ checks, Concludes context tree check) :
    runChecks loudness context tree checks =
      (checks.flatMap (block loudness context tree), .ok (checks.map (row context tree))) := by
  induction checks with
  | nil => rfl
  | cons check rest ih =>
    rw [runChecks, runCheck_eq loudness (h check (List.mem_cons_self ..))]
    dsimp only
    rw [ih fun other hother => h other (List.mem_cons_of_mem check hother)]
    rfl

theorem failedNames_map_row (checks : List Check) :
    failedNames (checks.map (row context tree)) =
      (checks.filter fun check => !(row context tree check).passed).map Check.name := by
  rw [failedNames, List.filter_map, List.map_map]
  exact List.map_congr_left fun check _ => congrArg Check.name (row_check check)

end Checks

/-! ## The gate -/

/-- The line that ends the summary, as the checks that failed have it. -/
def verdictLine (failed : List Check) : Message :=
  if failed = [] then ⟨.out, "All 5 checks passed."⟩
  else ⟨.err, Text.concat [Text.ofNat failed.length, " of 5 check(s) failed: ",
    Text.joinWith ", " (failed.map Check.name)]⟩

theorem closing_all (context : Context) (tree : FileTree) :
    closing (Check.all.map (row context tree)) =
      verdictLine (Check.all.filter fun check => !(row context tree check).passed) := by
  rw [closing, failedNames_map_row, List.length_map]
  generalize Check.all.filter (fun check => !(row context tree check).passed) = failed
  cases failed with
  | nil => rfl
  | cons check rest =>
    have hlength : (check :: rest).length = ((check :: rest).map Check.name).length :=
      (List.length_map Check.name).symm
    rw [verdictLine, if_neg (List.cons_ne_nil check rest), hlength]
    rfl

/-- Where every check comes to a verdict or finds no table of routes, the gate writes what the single
commands write that have the same arguments, one after the other, and behind it the summary, which
counts and names those that fail. It fails if one of them does. -/
theorem gate_gathers {front options : List Text} {tree : FileTree} {here : Path}
    (setting : Setting front options tree here)
    (hconcludes : ∀ check, Concludes setting.context tree check) :
    let single := fun check : Check => run (front ++ (Command.check check).name :: options) tree here
    let gate := run (front ++ Command.gate.name :: options) tree here
    let written := block setting.loudness setting.context tree
    let failed := Check.all.filter fun check => (single check).2.ending.code = 1
    (∀ check, (single check).1 = tree ∧ (single check).2.messages = setting.told ++ written check ∧
      ((single check).2.ending = .status 0 ∨ (single check).2.ending = .status 1)) ∧
    gate.1 = tree ∧
    gate.2.messages = setting.told ++ Check.all.flatMap written ++
      (([] : Text) :: Table.lines "Verification summary" summaryColumns
        (Check.all.map fun check => (row setting.context tree check).cells)).map (⟨.out, ·⟩) ++
      [verdictLine failed] ∧
    (gate.2.ending = .status 0 ∨ gate.2.ending = .status 1) ∧
    (gate.2.ending.code = 1 ↔ ∃ check, (single check).2.ending.code = 1) := by
  intro single gate written failed
  have hsingle : ∀ check, single check = (tree, ⟨setting.told ++ written check,
      .status (if (row setting.context tree check).passed then 0 else 1)⟩) := fun check => by
    rw [show single check = _ from setting.run_check check,
      checkOutcome_eq setting.loudness (hconcludes check)]
    rfl
  have hcode : ∀ check, (single check).2.ending.code = 1 ↔
      (row setting.context tree check).passed = false := fun check => by
    rw [hsingle]
    cases (row setting.context tree check).passed <;> simp [Ending.code]
  have hfailed : failed =
      Check.all.filter fun check => !(row setting.context tree check).passed :=
    List.filter_congr fun check _ => by
      rw [Bool.eq_iff_iff, decide_eq_true_iff, hcode, Bool.not_eq_true']
  have hgate : gate = (tree, ⟨setting.told ++ (Check.all.flatMap written ++
      summary (Check.all.map (row setting.context tree))), .status (if failed = [] then 0 else 1)⟩) := by
    rw [show gate = _ from setting.run_gate, gateOutcome,
      runChecks_eq setting.loudness Check.all fun check _ => hconcludes check]
    dsimp only
    rw [failedNames_map_row, ← hfailed]
    simp only [List.isEmpty_iff, List.map_eq_nil_iff]
    rfl
  refine ⟨fun check => ⟨by rw [hsingle], by rw [hsingle], ?_⟩, by rw [hgate], ?_, ?_, ?_⟩
  · rw [hsingle]
    cases (row setting.context tree check).passed
    · exact .inr rfl
    · exact .inl rfl
  · rw [hgate, hfailed, ← closing_all, summary, List.map_map]
    simp only [List.append_assoc]
    rfl
  · rw [hgate]
    by_cases hnone : failed = []
    · exact .inl (congrArg Ending.status (if_pos hnone))
    · exact .inr (congrArg Ending.status (if_neg hnone))
  · have hall : ∀ check, check ∈ Check.all := fun check => by cases check <;> decide
    have hcodes : gate.2.ending.code = 1 ↔ failed ≠ [] := by
      rw [hgate]
      by_cases hnone : failed = [] <;> simp [hnone, Ending.code]
    rw [hcodes, Ne, List.eq_nil_iff_forall_not_mem, Classical.not_forall_not]
    exact exists_congr fun check => by
      rw [List.mem_filter, decide_eq_true_iff]
      exact and_iff_right (hall check)

/-- The small workspace, looked at quietly from its root. -/
def pageSetting : Setting ["--quiet"] [] (pageTree colorBytes) ⟨.root, []⟩ where
  switches := [(.quiet, [])]
  given := {}
  start := ⟨.root, []⟩
  context := pageContext
  scan_front := by decide
  no_answer := by decide
  scan_options := by decide
  no_help := by decide
  no_operands := rfl
  start_eq := rfl
  context_eq := context_pageTree

theorem concludes_page (check : Check) : Concludes pageContext (pageTree colorBytes) check := by
  intro fault hrun
  cases check with
  | layout | featureRoutes | featureImports => cases hrun
  | appRoutes =>
    rw [Check.run] at hrun
    cases hcheck : AppRoutes.check pageContext (pageTree colorBytes) with
    | ok verdict => rw [hcheck] at hrun; cases hrun
    | error cause =>
      rw [hcheck] at hrun
      exact ⟨cause, (Except.error.inj hrun).symm⟩
  | rawColors =>
    have hplaces : (RawColors.tokenPlaces pageContext).toOption.isSome := by decide +kernel
    rw [Check.run, RawColors.check] at hrun
    cases hfound : RawColors.tokenPlaces pageContext with
    | ok places => rw [hfound] at hrun; cases hrun
    | error cause => rw [hfound] at hplaces; cases hplaces

/-- In the small workspace the colour of the page is one of the things that make the gate fail. -/
theorem gate_gathers_page :
    (∀ check, Concludes pageContext (pageTree colorBytes) check) ∧
    let single := fun check : Check =>
      run ([("--quiet" : Text)] ++ (Command.check check).name :: []) (pageTree colorBytes) ⟨.root, []⟩
    let gate := run ([("--quiet" : Text)] ++ Command.gate.name :: []) (pageTree colorBytes) ⟨.root, []⟩
    let written := block pageSetting.loudness pageContext (pageTree colorBytes)
    let failed := Check.all.filter fun check => (single check).2.ending.code = 1
    (∀ check, (single check).1 = pageTree colorBytes ∧
      (single check).2.messages = pageSetting.told ++ written check ∧
      ((single check).2.ending = .status 0 ∨ (single check).2.ending = .status 1)) ∧
    gate.1 = pageTree colorBytes ∧
    gate.2.messages = pageSetting.told ++ Check.all.flatMap written ++
      (([] : Text) :: Table.lines "Verification summary" summaryColumns
        (Check.all.map fun check =>
          (row pageContext (pageTree colorBytes) check).cells)).map (⟨.out, ·⟩) ++
      [verdictLine failed] ∧
    (gate.2.ending = .status 0 ∨ gate.2.ending = .status 1) ∧
    (gate.2.ending.code = 1 ↔ ∃ check, (single check).2.ending.code = 1) :=
  ⟨concludes_page, gate_gathers pageSetting concludes_page⟩

end VerticalSlice.Command
