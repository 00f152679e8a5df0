import FinalParams.CommandLine.Program
import FinalParams.Proofs.Host.Dumps
import FinalParams.Proofs.Lowering.Ending

/-!
# How the program ends

A run over dump files that lead in no circles comes to an end.  Where a file cannot be loaded it ends
as incomplete, without a word about the others, and where all files can be read it ends with one of
the three statuses.  But the line of a suppression that is no number ends it without a status, since
nothing catches the failure.  `run_ends` says which of these it is: the first file decides that
cannot be read.
-/

namespace FinalParams

/-- The path is short enough to be looked up.  If the parser stops, the file cannot be read, and if it
does not, every configuration names its files by texts and leads in no circle. -/
structure Disk.Tame (disk : Disk) (file : String) : Prop where
  short : disk.isTooLong file = false
  faults : ∀ fault, disk.read file = some (.error fault) → fault.kind.isUnreadable = true
  configs : ∀ dump, disk.read file = some (.ok dump) →
    ∀ config ∈ dump.configurations, config.FilesNamed ∧ config.Forward

namespace Disk

variable {disk : Disk} {file : String}

theorem read_of_load {dump : Dump} (h : disk.load file = .ok dump) :
    disk.read file = some (.ok dump) := by
  unfold load at h
  split at h
  · cases h
  split at h
  · cases h
  · rename_i result hread
    split at h
    · split at h
      · rename_i dump'
        rw [hread, Except.ok.inj h]
      · split at h <;> cases h
    · cases h

/-- A tame file that cannot be loaded gives an error with a code. -/
theorem Tame.load_error (h : disk.Tame file) {failure : Failure}
    (hf : disk.load file = .error failure) : ∃ e, failure = .load e := by
  unfold load at hf
  rw [h.short, Bool.and_false, if_neg Bool.false_ne_true] at hf
  split at hf
  · exact ⟨_, (Except.error.inj hf).symm⟩
  · rename_i result hread
    split at hf
    · split at hf
      · cases hf
      · rename_i fault
        rw [if_pos (h.faults fault hread)] at hf
        exact ⟨_, (Except.error.inj hf).symm⟩
    · exact ⟨_, (Except.error.inj hf).symm⟩

theorem Tame.obstacle_cases (h : disk.Tame file) {failure : Failure}
    (hf : disk.obstacle? file = some failure) :
    (∃ e, failure = .load e) ∨ ∃ e, failure = .number e := by
  unfold obstacle? at hf
  split at hf
  · rename_i hload
    obtain rfl := Option.some.inj hf
    exact .inl (h.load_error hload)
  · obtain ⟨e, -, rfl⟩ := Option.map_eq_some_iff.mp hf
    exact .inr ⟨e, rfl⟩

theorem load_of_mem_dumps {files : List String} {p : String × Dump} (h : p ∈ disk.dumps files) :
    p.1 ∈ files ∧ disk.load p.1 = .ok p.2 := by
  obtain ⟨file, hfile, hp⟩ := List.mem_filterMap.mp h
  cases hload : disk.load file with
  | error failure =>
    rw [hload] at hp
    cases hp
  | ok dump =>
    rw [hload] at hp
    obtain rfl := Option.some.inj hp
    exact ⟨hfile, hload⟩

end Disk

theorem Registry.default_selected {names : Option (List String)} {c : Checker}
    (h : c ∈ Registry.default.selected names) : c = parameterChecker := by
  have hentry : ∀ entry ∈ Registry.default, entry.2 = parameterChecker := by
    intro entry he
    obtain rfl := List.mem_singleton.mp (he : entry ∈ [(ParameterChecker.name, parameterChecker)])
    rfl
  cases names with
  | none =>
    obtain ⟨entry, he, rfl⟩ := List.mem_map.mp h
    exact hentry entry he
  | some names =>
    obtain ⟨name, -, hget⟩ := List.mem_filterMap.mp h
    exact hentry _ (Table.mem_of_get? hget)

namespace CommandLine

variable {disk : Disk} {registry : Registry} {clock : Clock} {s : Settings}

theorem check_of_ok {status : ExitStatus} {output : String}
    (h : (runAddon disk registry clock s.request).1 = .ok (status, output)) :
    (check disk registry clock s).1.result = .ok status.code
      ∧ (check disk registry clock s).1.stdout = output := by
  unfold check
  cases hrun : runAddon disk registry clock s.request with
  | mk result host =>
    rw [hrun] at h
    obtain rfl : result = .ok (status, output) := h
    exact ⟨rfl, rfl⟩

/-- A failure that ends the run leaves nothing on standard output. -/
theorem check_of_error {failure : Failure}
    (h : (runAddon disk registry clock s.request).1 = .error failure) :
    (check disk registry clock s).1.result
        = (if failure.isCoded then .ok ExitStatus.incomplete.code else .error failure)
      ∧ (check disk registry clock s).1.stdout = "" := by
  unfold check
  cases hrun : runAddon disk registry clock s.request with
  | mk result host =>
    rw [hrun] at h
    obtain rfl : result = .error failure := h
    by_cases hc : failure.isCoded = true
    · simp only [if_pos hc]
      exact ⟨trivial, trivial⟩
    · simp only [if_neg hc]
      exact ⟨trivial, trivial⟩

theorem run_eq_check {arguments : List String} (hparse : parse arguments = .ok s)
    (hlist : s.listCheckers = false) (hfiles : s.dumpFiles ≠ []) :
    run disk registry clock arguments = check disk registry clock s := by
  unfold run
  rw [hparse]
  simp only [hlist, if_neg hfiles, Bool.false_eq_true, if_false]

/-- The program comes to an end over files that lead in no circle, and the first file decides how
that cannot be read.  One that cannot be loaded ends it as incomplete, and one with a suppression in
a line that is no number without any status.  Without such a file there is a status. -/
theorem run_ends {arguments : List String} (hparse : parse arguments = .ok s)
    (hlist : s.listCheckers = false) (hfiles : s.dumpFiles ≠ []) (hclock : clock.Readable)
    (htame : ∀ file ∈ s.dumpFiles, disk.Tame file) :
    (∀ file ∈ s.dumpFiles, ∀ dump, disk.load file = .ok dump →
        ∀ config ∈ dump.configurations, ∀ path e, config.compilationUnit path = .error e →
          e.isCircular = false)
      ∧ match s.dumpFiles.findSome? disk.obstacle? with
        | none => ∃ status : ExitStatus,
          (run disk Registry.default clock arguments).1.result = .ok status.code
        | some (.load _) =>
          (run disk Registry.default clock arguments).1.result = .ok ExitStatus.incomplete.code
            ∧ (run disk Registry.default clock arguments).1.stdout = ""
        | some (.number e) =>
          (run disk Registry.default clock arguments).1.result = .error (.number e)
            ∧ (run disk Registry.default clock arguments).1.stdout = ""
        | some _ => False := by
  have hconfigs : ∀ file ∈ s.dumpFiles, ∀ dump, disk.load file = .ok dump →
      ∀ config ∈ dump.configurations, config.FilesNamed ∧ config.Forward := fun file hfile dump hload =>
    (htame file hfile).configs dump (Disk.read_of_load hload)
  refine ⟨fun file hfile dump hload config hconfig path e he =>
    Config.compilationUnit_error (hconfigs file hfile dump hload config hconfig).2 he, ?_⟩
  have hflaws : (Registry.default.selected s.request.checkers).findSome? Checker.flaw? = none := by
    rw [List.findSome?_eq_none_iff]
    intro c hc
    obtain rfl := Registry.default_selected hc
    rfl
  have hknown : Turn.Known (s.request.turns Registry.default (disk.dumps s.request.dumpFiles)) := by
    refine ParameterChecker.known_ofDumps (fun c hc => Registry.default_selected hc) ?_
    intro p hp config hconfig
    obtain ⟨hfile, hload⟩ := Disk.load_of_mem_dumps hp
    exact (hconfigs p.1 hfile p.2 hload config hconfig).1
  have hreport := Addon.report?_run disk hflaws hclock hknown
  have hrun := Addon.runAddon_eq disk Registry.default clock s.request
  rw [run_eq_check hparse hlist hfiles]
  have hrequest : s.request.dumpFiles = s.dumpFiles := rfl
  rw [hrequest] at hreport
  cases hfirst : s.dumpFiles.findSome? disk.obstacle? with
  | none =>
    rw [hfirst] at hreport
    obtain ⟨report, hreport⟩ := hreport
    rw [hreport] at hrun
    exact ⟨_, (check_of_ok hrun).1⟩
  | some failure =>
    rw [hfirst] at hreport
    simp only at hreport
    rw [hreport] at hrun
    have hended := check_of_error hrun
    obtain ⟨file, hfile, hobstacle⟩ := List.exists_of_findSome?_eq_some hfirst
    rcases (htame file hfile).obstacle_cases hobstacle with ⟨e, rfl⟩ | ⟨e, rfl⟩
    · exact hended
    · exact hended

/-! ## A file that is there and one that is not -/

theorem steppingConfig_forward : steppingConfig.Forward := by
  refine ⟨⟨id, ?_, ?_⟩, ?_⟩
  · intro t u hu
    match t with
    | 0 | 1 | 2 =>
      obtain rfl := Option.some.inj hu
      decide
    | 3 => cases hu
    | _ + 4 => cases hu
  · intro s hs b e hb he
    match s with
    | 0 =>
      obtain rfl := Option.some.inj hb
      obtain rfl := Option.some.inj he
      decide
    | _ + 1 => cases hb
  · exact Config.acyclic_of_height (fun t => if t = 1 then 1 else 0) (by decide)

def steppingDisk : Disk where
  read := fun path => if path = "lib/a.c.dump" then some (.ok steppingDump.2) else none

theorem steppingDisk_tame (file : String) : steppingDisk.Tame file := by
  refine ⟨rfl, ?_, ?_⟩
  · intro fault hread
    simp only [steppingDisk] at hread
    split at hread <;> cases hread
  · intro dump hread config hconfig
    simp only [steppingDisk] at hread
    split at hread
    · obtain rfl := Except.ok.inj (Option.some.inj hread)
      obtain rfl := List.mem_singleton.mp hconfig
      exact ⟨steppingConfig_filesNamed, steppingConfig_forward⟩
    · cases hread

/-- What was found before the missing file is not written. -/
theorem run_ends_missing :
    parse ["lib/a.c.dump", "b.c.dump"] = .ok { dumpFiles := ["lib/a.c.dump", "b.c.dump"] }
      ∧ (∀ file ∈ ["lib/a.c.dump", "b.c.dump"], steppingDisk.Tame file)
      ∧ (∃ e, ["lib/a.c.dump", "b.c.dump"].findSome? steppingDisk.obstacle? = some (.load e))
      ∧ (run steppingDisk Registry.default {} ["lib/a.c.dump", "b.c.dump"]).1.result = .ok 2
      ∧ (run steppingDisk Registry.default {} ["lib/a.c.dump", "b.c.dump"]).1.stdout = "" := by
  have hparse : parse ["lib/a.c.dump", "b.c.dump"]
      = .ok { dumpFiles := ["lib/a.c.dump", "b.c.dump"] } := by cbv
  have hclock : ({} : Clock).Readable := ⟨rfl, fun t ht => absurd ht List.not_mem_nil⟩
  exact ⟨hparse, fun file _ => steppingDisk_tame file, ⟨_, rfl⟩,
    (run_ends hparse rfl (by decide) hclock fun file _ => steppingDisk_tame file).2⟩

/-! ## A suppression in a line that is no number -/

def misnumberedDump : Dump :=
  { suppressions := [{ errorId := .text "x", lineNumber := .text "abc" }] }

def misnumberedDisk : Disk where
  read := fun path => if path = "a.c.dump" then some (.ok misnumberedDump) else none

/-- The program ends without a status. -/
theorem misnumbered_escapes :
    (run misnumberedDisk Registry.default {} ["a.c.dump"]).1.result
      = .error (.number (.malformed "abc")) := by
  have hparse : parse ["a.c.dump"] = .ok { dumpFiles := ["a.c.dump"] } := by cbv
  have hrun : (runAddon misnumberedDisk Registry.default {}
      ({ dumpFiles := ["a.c.dump"] } : Settings).request).1
        = .error (.number (.malformed "abc")) := rfl
  rw [run_eq_check hparse rfl (by decide)]
  exact (check_of_error hrun).1

end CommandLine
end FinalParams
