import SchemaDump.Command.Run
import SchemaDump.Files.Tree
/- A run over several dumps, told from the runs over each of them. -/
namespace SchemaDump

/-- The text of a dump, if there is one that can be read. -/
def Disk.dump? (disk : Disk Id) (path : String) : Option String :=
  if (disk.kind path).run = .missing then none else (disk.text? path).run

/-- The paths of the dumps, as long as none of them is a pattern. -/
def Settings.paths (s : Settings) : List String :=
  if s.schema.isEmpty then [defaultDump] else s.schema

/-- Whether there is something to tell about a dump. -/
def Action.Finds (forced : Option Dialect) (sql : Text) : Action → Prop
  | .tables => (extractForced forced sql).1.tables ≠ []
  | .dialects => ∃ d, Dialect.detect sql = some d
  | .references name => ∃ t ∈ (extractForced forced sql).1.tables, t.name = name

def Disk.Lacks (disk : Disk Id) (paths : List String) : Prop := ∃ path ∈ paths, disk.dump? path = none

/-- There is something to tell about one of several dumps. -/
def Disk.Tells (disk : Disk Id) (action : Action) (forced : Option Dialect) (paths : List String) : Prop :=
  ∃ path ∈ paths, ∃ content, disk.dump? path = some content ∧ action.Finds forced content.toList

namespace Request

def found (disk : Disk Id) (r : Request) : Except Failure Settings :=
  match r.config with
  | some path => (loadSettings disk path).run
  | none => (findSettings disk disk.upwards.run).run

/-- The settings that a request is carried out with: those it finds, and over them its own. -/
def settings (disk : Disk Id) (r : Request) : Except Failure Settings :=
  (r.found disk).map (·.overriddenBy r)

def on (r : Request) (files : List String) : Request := { r with files }

def asking (r : Request) (action : Action) (format : Option OutputFormat) : Request :=
  { r with action, format }

end Request

section
variable {disk : Disk Id} {report : String → String → String × Bool} {file content : String}
  {files : List String}

theorem readDump_of_some (h : disk.dump? file = some content) :
    (readDump disk file).run = .ok content := by
  by_cases hkind : (disk.kind file).run = .missing
  · rw [Disk.dump?, if_pos hkind] at h
    cases h
  · rw [Disk.dump?, if_neg hkind] at h
    simp [readDump, hkind, h]

theorem exists_readDump_of_none (h : disk.dump? file = none) :
    ∃ failure, (readDump disk file).run = .error failure := by
  by_cases hkind : (disk.kind file).run = .missing
  · exact ⟨.missingDump file, by simp [readDump, hkind]⟩
  · rw [Disk.dump?, if_neg hkind] at h
    exact ⟨.unreadableDump file, by simp [readDump, hkind, h]⟩

theorem reportAll_of_some (h : disk.dump? file = some content) :
    (reportAll disk report (file :: files)).run =
      { (reportAll disk report files).run with
        output := (report file content).1 ++ (reportAll disk report files).run.output
        found := (report file content).2 || (reportAll disk report files).run.found } := by
  simp [reportAll, readDump_of_some h]

theorem exists_reportAll_of_none (h : disk.dump? file = none) :
    ∃ failure, (reportAll disk report (file :: files)).run = .fail failure := by
  obtain ⟨failure, hread⟩ := exists_readDump_of_none h
  exact ⟨failure, by simp [reportAll, hread]⟩

theorem reportAll_single (h : disk.dump? file = some content) :
    (reportAll disk report [file]).run = ⟨(report file content).1, (report file content).2, none⟩ := by
  rw [reportAll_of_some h]
  simp [reportAll]

theorem failure_reportAll_iff :
    (reportAll disk report files).run.failure = none ↔ ∀ path ∈ files, (disk.dump? path).isSome := by
  induction files with
  | nil => simp [reportAll]
  | cons file files ih =>
      cases h : disk.dump? file with
      | none =>
          obtain ⟨failure, hfail⟩ : ∃ failure, (reportAll disk report (file :: files)).run = .fail failure :=
            exists_reportAll_of_none h
          simp [hfail, Outcome.fail, h]
      | some content => simp [reportAll_of_some h, ih, h]

theorem output_reportAll : (reportAll disk report files).run.output =
    String.join ((files.takeWhile fun path => (disk.dump? path).isSome).map fun path =>
      (reportAll disk report [path]).run.output) := by
  induction files with
  | nil => simp [reportAll]
  | cons file files ih =>
      cases h : disk.dump? file with
      | none =>
          obtain ⟨failure, hfail⟩ : ∃ failure, (reportAll disk report (file :: files)).run = .fail failure :=
            exists_reportAll_of_none h
          simp [hfail, Outcome.fail, h]
      | some content =>
          rw [reportAll_of_some h, List.takeWhile_cons_of_pos (by rw [h]; rfl), List.map_cons,
            String.join_cons, reportAll_single h, ih]

/-- Dumps without anything to tell neither hide what others have told nor add to it. -/
theorem found_reportAll_iff (h : ∀ path ∈ files, (disk.dump? path).isSome) :
    (reportAll disk report files).run.found ↔
      ∃ path ∈ files, ∃ content, disk.dump? path = some content ∧ (report path content).2 := by
  induction files with
  | nil => simp [reportAll]
  | cons file files ih =>
      obtain ⟨content, hcontent⟩ := Option.isSome_iff_exists.mp (h file List.mem_cons_self)
      have hrest := ih fun path hpath => h path (List.mem_cons_of_mem _ hpath)
      simp [reportAll_of_some hcontent, hrest, hcontent]

theorem Outcome.exitCode_eq_two_iff {o : Outcome} : o.exitCode = 2 ↔ o.failure ≠ none := by
  cases o with
  | mk output found failure => cases failure <;> cases found <;> simp [exitCode]

theorem Outcome.exitCode_eq_zero_iff {o : Outcome} : o.exitCode = 0 ↔ o.failure = none ∧ o.found := by
  cases o with
  | mk output found failure => cases failure <;> cases found <;> simp [exitCode]

theorem Outcome.exitCode_eq_one_iff {o : Outcome} : o.exitCode = 1 ↔ o.failure = none ∧ ¬o.found := by
  cases o with
  | mk output found failure => cases failure <;> cases found <;> simp [exitCode]

theorem reportOn_found_iff {action : Action} {forced : Option Dialect} {format : OutputFormat} :
    (reportOn action forced format file content).2 ↔ action.Finds forced content.toList := by
  cases action with
  | tables => simp [reportOn, Action.Finds, Schema.isEmpty]
  | dialects => simp [reportOn, Action.Finds, Option.isSome_iff_exists]
  | references name =>
      cases htable : (extractForced forced content.toList).1.table? name with
      | none =>
          have hnone := List.find?_eq_none.mp htable
          simp only [reportOn, htable, Action.Finds, Bool.false_eq_true, false_iff, not_exists, not_and]
          exact fun t ht => by simpa using hnone t ht
      | some t =>
          have hname := List.find?_some htable
          have hmem := List.mem_of_find?_eq_some htable
          cases format <;>
            simpa only [reportOn, htable, Action.Finds, true_iff] using ⟨t, hmem, by simpa using hname⟩

theorem Disk.not_lacks_iff : ¬disk.Lacks files ↔ ∀ path ∈ files, (disk.dump? path).isSome := by
  simp only [Disk.Lacks, not_exists, not_and, ← Option.ne_none_iff_isSome, ne_eq]

section
variable {action : Action} {forced : Option Dialect} {format : OutputFormat}

theorem found_reportOn_iff (h : ¬disk.Lacks files) :
    (reportAll disk (reportOn action forced format) files).run.found ↔ disk.Tells action forced files := by
  rw [found_reportAll_iff (Disk.not_lacks_iff.mp h)]
  simp only [reportOn_found_iff, Disk.Tells]

theorem exitCode_reportAll_eq_two_iff :
    (reportAll disk report files).run.exitCode = 2 ↔ disk.Lacks files := by
  rw [Outcome.exitCode_eq_two_iff, ne_eq, failure_reportAll_iff, ← Disk.not_lacks_iff, Classical.not_not]

theorem exitCode_reportOn_eq_zero_iff :
    (reportAll disk (reportOn action forced format) files).run.exitCode = 0 ↔
      ¬disk.Lacks files ∧ disk.Tells action forced files := by
  rw [Outcome.exitCode_eq_zero_iff, failure_reportAll_iff, ← Disk.not_lacks_iff]
  exact and_congr_right found_reportOn_iff

theorem exitCode_reportOn_eq_one_iff :
    (reportAll disk (reportOn action forced format) files).run.exitCode = 1 ↔
      ¬disk.Lacks files ∧ ¬disk.Tells action forced files := by
  rw [Outcome.exitCode_eq_one_iff, failure_reportAll_iff, ← Disk.not_lacks_iff]
  exact and_congr_right fun h => not_congr (found_reportOn_iff h)

theorem Disk.Tells.of_subset {others : List String} (h : disk.Tells action forced files)
    (hfiles : files ⊆ others) : disk.Tells action forced others := by
  obtain ⟨path, hpath, hcontent⟩ := h
  exact ⟨path, hfiles hpath, hcontent⟩

theorem Disk.Tells.tables {name : String} (h : disk.Tells (.references name) none files) :
    disk.Tells .tables none files := by
  obtain ⟨path, hpath, content, hcontent, t, ht, -⟩ := h
  exact ⟨path, hpath, content, hcontent, List.ne_nil_of_mem ht⟩

theorem Disk.Tells.dialects (h : disk.Tells .tables none files) : disk.Tells .dialects none files := by
  obtain ⟨path, hpath, content, hcontent, htables⟩ := h
  refine ⟨path, hpath, content, hcontent, Option.ne_none_iff_exists'.mp fun hnone => htables ?_⟩
  simp only [extractForced, Schema.ofDump, hnone, Schema.empty]

end

theorem expandAll_of_plain (h : ∀ path ∈ files, '*' ∉ path.toList) :
    (Settings.expandAll disk files).run = some files := by
  induction files with
  | nil => rfl
  | cons path files ih =>
      have hpath := h path List.mem_cons_self
      have hrest := ih fun path hmem => h path (List.mem_cons_of_mem _ hmem)
      simp [Settings.expandAll, hpath, hrest]

theorem Settings.dumps_of_plain {s : Settings} (h : ∀ path ∈ s.paths, '*' ∉ path.toList) :
    (s.dumps disk).run = some s.paths := by
  by_cases hempty : s.schema.isEmpty
  · simp only [dumps, paths, if_pos hempty, Id.run_pure]
  · rw [paths, if_neg hempty] at *
    rw [dumps, if_neg hempty, expandAll_of_plain h]

theorem Settings.paths_ne_nil (s : Settings) : s.paths ≠ [] := by
  unfold paths
  split
  · exact List.cons_ne_nil _ _
  · rwa [ne_eq, ← List.isEmpty_iff]

end

namespace Request
variable {disk : Disk Id} {r : Request} {s : Settings} {forced : Option Dialect}

/-- The dialects that a run tells are found in the dumps, whatever is forced. -/
theorem exists_forcedDialect (hforced : s.forcedDialect = .ok forced) (action : Action) :
    ∃ d, action.forcedDialect s = .ok d ∧
      reportOn action d s.outputFormat = reportOn action forced s.outputFormat := by
  cases action with
  | tables => exact ⟨forced, hforced, rfl⟩
  | dialects => exact ⟨none, rfl, rfl⟩
  | references name => exact ⟨forced, hforced, rfl⟩

theorem settings_eq_ok_iff :
    r.settings disk = .ok s ↔ ∃ found, r.found disk = .ok found ∧ found.overriddenBy r = s := by
  unfold settings
  cases r.found disk with
  | error failure => simp [Except.map]
  | ok found => simp [Except.map]

theorem run_eq_reportAll (hs : r.settings disk = .ok s) (hforced : s.forcedDialect = .ok forced)
    (hpaths : ∀ path ∈ s.paths, '*' ∉ path.toList) :
    (r.run disk).run = (reportAll disk (reportOn r.action forced s.outputFormat) s.paths).run := by
  obtain ⟨d, hd, hreport⟩ := exists_forcedDialect hforced r.action
  have hdumps : (s.dumps disk).run = some s.paths := Settings.dumps_of_plain hpaths
  obtain ⟨found, hfound, hsettings⟩ := settings_eq_ok_iff.mp hs
  rw [← hreport]
  unfold Request.found at hfound
  cases hconfig : r.config with
  | some path =>
      rw [hconfig] at hfound
      simp [run, hconfig, hfound, hsettings, hd, hdumps]
  | none =>
      rw [hconfig] at hfound
      simp [run, hconfig, hfound, hsettings, hd, hdumps]

variable {files : List String}

theorem settings_on (hs : r.settings disk = .ok s) (hfiles : files ≠ []) :
    (r.on files).settings disk = .ok { s with schema := files } := by
  obtain ⟨found, hfound, rfl⟩ := settings_eq_ok_iff.mp hs
  refine settings_eq_ok_iff.mpr ⟨found, hfound, ?_⟩
  have hnonempty : files.isEmpty = false := by rwa [List.isEmpty_eq_false_iff]
  simp only [Settings.overriddenBy, on, hnonempty, Bool.false_eq_true, if_false]

theorem settings_asking (hs : r.settings disk = .ok s) (action : Action) (format : Option OutputFormat) :
    ∃ name, (r.asking action format).settings disk = .ok { s with format := name } := by
  obtain ⟨found, hfound, rfl⟩ := settings_eq_ok_iff.mp hs
  exact ⟨_, settings_eq_ok_iff.mpr ⟨found, hfound, rfl⟩⟩

theorem run_on_eq_reportAll (hs : r.settings disk = .ok s) (hforced : s.forcedDialect = .ok forced)
    (hfiles : files ≠ []) (hplain : ∀ path ∈ files, '*' ∉ path.toList) :
    ((r.on files).run disk).run =
      (reportAll disk (reportOn r.action forced s.outputFormat) files).run := by
  have hnonempty : files.isEmpty = false := by rwa [List.isEmpty_eq_false_iff]
  have hpaths : ({ s with schema := files } : Settings).paths = files := by
    simp only [Settings.paths, hnonempty, Bool.false_eq_true, if_false]
  have hforced : ({ s with schema := files } : Settings).forcedDialect = .ok forced := hforced
  have hrun := run_eq_reportAll (settings_on hs hfiles) hforced (by rwa [hpaths])
  rwa [hpaths] at hrun

theorem exists_run_asking_eq_reportAll (hs : r.settings disk = .ok s)
    (hforced : s.forcedDialect = .ok forced) (hpaths : ∀ path ∈ s.paths, '*' ∉ path.toList)
    (action : Action) (format : Option OutputFormat) :
    ∃ form, ((r.asking action format).run disk).run =
      (reportAll disk (reportOn action forced form) s.paths).run := by
  obtain ⟨name, hname⟩ := settings_asking hs action format
  exact ⟨_, run_eq_reportAll (s := { s with format := name }) hname hforced hpaths⟩

/-- What a run over dumps is, by the runs over each of them and by what can be read. -/
structure RunsOver (disk : Disk Id) (r : Request) (paths : List String) (forced : Option Dialect)
    (format : OutputFormat) : Prop where
  /-- Dumps named by the settings are run over as those named by the request itself. -/
  named : (r.on paths).run disk = r.run disk
  /-- What was printed before a dump that cannot be read stays printed. -/
  output : (r.run disk).run.output =
    String.join ((paths.takeWhile fun path => (disk.dump? path).isSome).map fun path =>
      ((r.on [path]).run disk).run.output)
  fails : (r.run disk).run.exitCode = 2 ↔ disk.Lacks paths
  finds : (r.run disk).run.exitCode = 0 ↔ ¬disk.Lacks paths ∧ disk.Tells r.action forced paths
  findsNothing : (r.run disk).run.exitCode = 1 ↔ ¬disk.Lacks paths ∧ ¬disk.Tells r.action forced paths
  /-- More dumps find no less. -/
  more : ∀ others, (∀ path ∈ others, '*' ∉ path.toList) → ¬disk.Lacks others → paths ⊆ others →
    (r.run disk).run.exitCode = 0 → ((r.on others).run disk).run.exitCode = 0
  /-- The order of the dumps and their repetition do not matter. -/
  same : ∀ others, (∀ path ∈ others, '*' ∉ path.toList) → ¬disk.Lacks others → paths ⊆ others →
    others ⊆ paths → ((r.on others).run disk).run.exitCode = (r.run disk).run.exitCode
  /-- Where a table is found, there are tables, and where there are tables, there is a dialect. -/
  ordered : forced = none → ∀ name f g h,
    (((r.asking (.references name) f).run disk).run.exitCode = 0 →
      ((r.asking .tables g).run disk).run.exitCode = 0) ∧
    (((r.asking .tables g).run disk).run.exitCode = 0 →
      ((r.asking .dialects h).run disk).run.exitCode = 0)
  /-- The dialect that is told of a dump is the one that its tables are read in and shown with. -/
  dialect : forced = none → ∀ path content, '*' ∉ path.toList → disk.dump? path = some content →
    ∃ (d : Option Dialect) (schema : Schema),
      schema = (match d with | some d => d.extract content.toList | none => .empty) ∧
      (((r.asking .dialects r.format).on [path]).run disk).run.output = Report.dialect path d ∧
      (((r.asking .tables r.format).on [path]).run disk).run.output = (match format with
        | .human => Report.tables path schema d
        | .json => Report.tablesJson path schema d)

/-- Any request whose dumps are plain paths and whose dialect, if any, can be read. -/
theorem runsOver (hs : r.settings disk = .ok s) (hforced : s.forcedDialect = .ok forced)
    (hpaths : ∀ path ∈ s.paths, '*' ∉ path.toList) :
    r.RunsOver disk s.paths forced s.outputFormat := by
  have hrun := run_eq_reportAll hs hforced hpaths
  have hon : ∀ files, files ≠ [] → (∀ path ∈ files, '*' ∉ path.toList) → ((r.on files).run disk).run =
      (reportAll disk (reportOn r.action forced s.outputFormat) files).run := fun _ =>
    run_on_eq_reportAll hs hforced
  have hasking := exists_run_asking_eq_reportAll hs hforced hpaths
  have hothers : ∀ {others}, s.paths ⊆ others → others ≠ [] := fun hsub hnil =>
    s.paths_ne_nil (List.subset_nil.mp (hnil ▸ hsub))
  constructor
  case named => exact (hon _ s.paths_ne_nil hpaths).trans hrun.symm
  case output =>
    rw [hrun, output_reportAll]
    congr 1
    refine List.map_congr_left fun path hpath => ?_
    have hplain := hpaths path (List.takeWhile_subset _ hpath)
    rw [hon [path] (List.cons_ne_nil _ _) (by simpa using hplain)]
  case fails => rw [hrun, exitCode_reportAll_eq_two_iff]
  case finds => rw [hrun, exitCode_reportOn_eq_zero_iff]
  case findsNothing => rw [hrun, exitCode_reportOn_eq_one_iff]
  case more =>
    intro others hplain hlacks hsub hfound
    rw [hrun, exitCode_reportOn_eq_zero_iff] at hfound
    rw [hon others (hothers hsub) hplain, exitCode_reportOn_eq_zero_iff]
    exact ⟨hlacks, hfound.2.of_subset hsub⟩
  case same =>
    intro others hplain hlacks hsub hback
    have hlacks' : ¬disk.Lacks s.paths := fun ⟨path, hpath, hnone⟩ => hlacks ⟨path, hsub hpath, hnone⟩
    rw [hrun, hon others (hothers hsub) hplain]
    by_cases htells : disk.Tells r.action forced s.paths
    · rw [exitCode_reportOn_eq_zero_iff.mpr ⟨hlacks', htells⟩,
        exitCode_reportOn_eq_zero_iff.mpr ⟨hlacks, htells.of_subset hsub⟩]
    · rw [exitCode_reportOn_eq_one_iff.mpr ⟨hlacks', htells⟩,
        exitCode_reportOn_eq_one_iff.mpr ⟨hlacks, fun h => htells (h.of_subset hback)⟩]
  case ordered =>
    rintro rfl name f g h
    obtain ⟨_, hreferences⟩ := hasking (.references name) f
    obtain ⟨_, htables⟩ := hasking .tables g
    obtain ⟨_, hdialects⟩ := hasking .dialects h
    rw [hreferences, htables, hdialects]
    simp only [exitCode_reportOn_eq_zero_iff]
    exact ⟨And.imp_right .tables, And.imp_right .dialects⟩
  case dialect =>
    rintro rfl path content hplain hcontent
    have hsingle : ∀ action, (((r.asking action r.format).on [path]).run disk).run.output =
        (reportOn action none s.outputFormat path content).1 := by
      intro action
      have hsettings : (r.asking action r.format).settings disk = .ok s := hs
      rw [run_on_eq_reportAll hsettings hforced (List.cons_ne_nil _ _) (by simpa using hplain),
        reportAll_single hcontent]
      rfl
    refine ⟨Dialect.detect content.toList, .ofDump content.toList, ?_, hsingle .dialects, hsingle .tables⟩
    rfl

/-- Two dumps and settings of a project. -/
def twoDumps : FileTree where
  files := [
    (["a.sql"], "CREATE TABLE t (\n    a integer\n);\n".toUTF8),
    (["b.sql"], "".toUTF8),
    (["ddlscope.toml"], "format = \"json\"\n".toUTF8)]
  here := []

/-- A request for the tables of both dumps and of one that is missing. -/
def overThree : Request := ⟨.tables, ["b.sql", "a.sql", "c.sql"], none, none, none⟩

theorem runsOver_overThree :
    overThree.settings twoDumps.disk = .ok ⟨["b.sql", "a.sql", "c.sql"], none, some "json"⟩ ∧
    overThree.RunsOver twoDumps.disk ["b.sql", "a.sql", "c.sql"] none .json ∧
    (overThree.run twoDumps.disk).run.exitCode = 2 := by
  have hsettings : overThree.settings twoDumps.disk =
      .ok ⟨["b.sql", "a.sql", "c.sql"], none, some "json"⟩ := by rfl
  have hruns : overThree.RunsOver twoDumps.disk ["b.sql", "a.sql", "c.sql"] none .json :=
    runsOver hsettings rfl (by decide)
  exact ⟨hsettings, hruns, hruns.fails.mpr ⟨"c.sql", by decide, by rfl⟩⟩

end Request
end SchemaDump
