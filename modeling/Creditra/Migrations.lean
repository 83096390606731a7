import Creditra.GuardedRuns
import Creditra.JsStrings
import Mathlib.Data.List.Sort

/-!
# Applying migrations

`db/migrations.ts` runs the SQL of each migration file whose version is not in
`schema_migrations` and then inserts the version, each in a query of its own.
Any query may fail without effect, and any may take effect without its caller
hearing of it, because the connection or the process is gone. An attempt is what
becomes of every query one run of the tool can make.

Where a file's SQL took effect and its version was not inserted, the next
attempt runs the SQL again.
-/
namespace Creditra.Migrations
open GuardedRuns JsStrings

/-- The directory of the migrations. The SQL of a file may insert the version of the file itself,
as `005_db_indexes_hot_queries.sql` does. -/
structure MigrationsDir where
  entries : List (String × Bool)
  recordsItself : String → Bool
  nodup : (entries.map Prod.fst).Nodup

def endsWithSql (name : String) : Bool := ".sql".toList.isSuffixOf name.toList

/-- The files that end in `.sql`, in the order of their names. -/
def listMigrationFiles (dir : MigrationsDir) : List String :=
  ((dir.entries.filter fun e => e.2 && endsWithSql e.1).map Prod.fst).insertionSort
    fun a b => sortsBefore a b

def versionFromFilename (filename : String) : String :=
  if endsWithSql filename then String.ofList (filename.toList.take (filename.toList.length - 4))
  else filename

/-- The versions in `schema_migrations`, once the table is there, and the files whose SQL has taken
effect, each time it did. -/
structure Database where
  schemaMigrations : Option (List String) := none
  applied : List String := []

def Database.recorded (db : Database) : List String := db.schemaMigrations.getD []

/-- `INSERT ... ON CONFLICT (version) DO NOTHING`. -/
def Database.record (db : Database) (version : String) : Database :=
  { db with schemaMigrations := db.schemaMigrations.map fun versions =>
      if version ∈ versions then versions else versions ++ [version] }

/-- The SQL of a file takes effect. -/
def Database.apply (db : Database) (dir : MigrationsDir) (file : String) : Database :=
  let db := { db with applied := db.applied ++ [file] }
  if dir.recordsItself file then db.record (versionFromFilename file) else db

inductive Query where
  | createTable
  | select
  | readdir
  | readFile (file : String)
  | sql (file : String)
  | insert (version : String)
  deriving DecidableEq

/-- A query succeeds, fails without effect, or takes effect and its caller never learns of it. -/
inductive Fate where
  | done | failed | lost
  deriving DecidableEq

abbrev Attempt := Query → Fate

def applyMigration (dir : MigrationsDir) (attempt : Attempt) (db : Database) (file : String) :
    Database × Bool :=
  match attempt (.readFile file) with
  | .failed | .lost => (db,false)
  | .done => match attempt (.sql file) with
      | .failed => (db,false)
      | .lost => (db.apply dir file,false)
      | .done =>
          let version := versionFromFilename file
          match attempt (.insert version) with
          | .failed => (db.apply dir file,false)
          | .lost => ((db.apply dir file).record version,false)
          | .done => ((db.apply dir file).record version,true)

/-- The loop of `runPendingMigrations`: the database, and the versions that were run unless the run
was cut short. -/
def runFiles (dir : MigrationsDir) (attempt : Attempt) :
    Database → List String → List String → Database × Option (List String)
  | db, _, [] => (db,some [])
  | db, appliedSet, file :: files =>
      let version := versionFromFilename file
      if version ∈ appliedSet then runFiles dir attempt db appliedSet files
      else match applyMigration dir attempt db file with
        | (db',false) => (db',none)
        | (db',true) =>
            let rest := runFiles dir attempt db' (appliedSet ++ [version]) files
            (rest.1,rest.2.map (version :: ·))

def ensureSchemaMigrations (db : Database) : Database :=
  { db with schemaMigrations := some db.recorded }

def runPendingMigrations (dir : MigrationsDir) (attempt : Attempt) (db : Database) :
    Database × Option (List String) :=
  match attempt .createTable with
  | .failed => (db,none)
  | .lost => (ensureSchemaMigrations db,none)
  | .done =>
      let db := ensureSchemaMigrations db
      if attempt .select = .done ∧ attempt .readdir = .done then
        runFiles dir attempt db db.recorded (listMigrationFiles dir)
      else (db,none)

/-! ## Files and versions -/

theorem nodup_listMigrationFiles (dir : MigrationsDir) : (listMigrationFiles dir).Nodup := by
  have hperm := List.perm_insertionSort (fun a b => sortsBefore a b = true)
    ((dir.entries.filter fun e => e.2 && endsWithSql e.1).map Prod.fst)
  exact hperm.nodup_iff.mpr (dir.nodup.sublist (List.filter_sublist.map _))

theorem endsWithSql_of_mem {dir : MigrationsDir} {file : String}
    (h : file ∈ listMigrationFiles dir) : endsWithSql file = true := by
  rw [listMigrationFiles,List.mem_insertionSort,List.mem_map] at h
  obtain ⟨e,he,rfl⟩ := h
  have htest := (List.mem_filter.mp he).2
  rw [Bool.and_eq_true] at htest
  exact htest.2

/-- A version names one file. -/
theorem versionFromFilename_inj {a b : String} (ha : endsWithSql a = true)
    (hb : endsWithSql b = true) (h : versionFromFilename a = versionFromFilename b) : a = b := by
  have hcut : ∀ {name : String}, endsWithSql name = true →
      name.toList = (versionFromFilename name).toList ++ ".sql".toList := by
    intro name hname
    rw [versionFromFilename,if_pos hname,String.toList_ofList]
    obtain ⟨front,hfront⟩ := List.isSuffixOf_iff_suffix.mp hname
    rw [← hfront,List.length_append,show ".sql".toList.length = 4 from rfl,Nat.add_sub_cancel,
      List.take_left]
  apply String.toList_inj.mp
  rw [hcut ha,hcut hb,h]

theorem pairwise_listMigrationFiles (dir : MigrationsDir) :
    (listMigrationFiles dir).Pairwise fun a b => utf16 a ≤ utf16 b := by
  have htotal : Std.Total fun a b : String => sortsBefore a b = true := by
    constructor
    intro a b
    rw [sortsBefore_iff,sortsBefore_iff]
    exact le_total _ _
  have htrans : IsTrans String fun a b => sortsBefore a b = true := by
    constructor
    intro a b c
    rw [sortsBefore_iff,sortsBefore_iff,sortsBefore_iff]
    exact le_trans
  refine (List.pairwise_insertionSort (fun a b : String => sortsBefore a b = true) _).imp ?_
  intro a b h
  exact (sortsBefore_iff a b).mp h

theorem nodup_versions (dir : MigrationsDir) :
    ((listMigrationFiles dir).map versionFromFilename).Nodup := by
  refine (nodup_listMigrationFiles dir).map_on ?_
  intro a ha b hb h
  exact versionFromFilename_inj (endsWithSql_of_mem ha) (endsWithSql_of_mem hb) h

/-! ## One run -/

/-- The versions recorded are those of the files that have taken effect. -/
def Agree (db : Database) : Prop :=
  ∀ version, version ∈ db.recorded ↔ version ∈ db.applied.map versionFromFilename

/-- Nothing comes between the SQL of a file and its version: what takes effect of the SQL does so
with the insert, or inserts the version itself. -/
def Settled (dir : MigrationsDir) (attempt : Attempt) : List String → Prop
  | [] => True
  | file :: rest =>
      attempt (.readFile file) = .done →
        (attempt (.sql file) = .lost → dir.recordsItself file = true) ∧
        (attempt (.sql file) = .done →
          (attempt (.insert (versionFromFilename file)) = .failed →
            dir.recordsItself file = true) ∧
          (attempt (.insert (versionFromFilename file)) = .done → Settled dir attempt rest))

/-- The table is there and exactly the files `done` have taken effect and are recorded. -/
structure At (db : Database) (done : List String) : Prop where
  table : db.schemaMigrations.isSome = true
  applied : db.applied = done
  agree : Agree db

section Run
variable {dir : MigrationsDir} {attempt : Attempt} {db : Database} {done rest : List String}
  {file : String}

theorem mem_recorded_record (h : db.schemaMigrations.isSome = true) (version v : String) :
    v ∈ (db.record version).recorded ↔ v ∈ db.recorded ∨ v = version := by
  obtain ⟨versions,hversions⟩ := Option.isSome_iff_exists.mp h
  simp only [Database.record,Database.recorded,hversions,Option.map_some,Option.getD_some]
  split
  · rename_i hmem
    constructor
    · exact .inl
    · rintro (hv | rfl)
      · exact hv
      · exact hmem
  · rw [List.mem_append,List.mem_singleton]

theorem isSome_record (h : db.schemaMigrations.isSome = true) (version : String) :
    (db.record version).schemaMigrations.isSome = true := by
  rw [Database.record,Option.isSome_map]
  exact h

theorem apply_facts (h : At db done) (dir : MigrationsDir) (file : String) :
    (db.apply dir file).schemaMigrations.isSome = true ∧
      (db.apply dir file).applied = done ++ [file] ∧
      ∀ v, v ∈ (db.apply dir file).recorded ↔
        v ∈ done.map versionFromFilename ∨
          dir.recordsItself file = true ∧ v = versionFromFilename file := by
  have hagree := h.agree
  unfold Agree at hagree
  rw [h.applied] at hagree
  unfold Database.apply
  rw [h.applied]
  by_cases hself : dir.recordsItself file = true
  · simp only [hself,if_true,true_and]
    refine ⟨isSome_record h.table _,rfl,?_⟩
    intro v
    refine (mem_recorded_record ?_ _ v).trans (or_congr_left (hagree v))
    exact h.table
  · simp only [hself,Bool.false_eq_true,if_false,false_and,or_false,true_and]
    exact ⟨h.table,hagree⟩

/-- Running the SQL alone is in step with the record only if it records itself. -/
theorem agree_apply_iff (h : At db done)
    (hnew : versionFromFilename file ∉ done.map versionFromFilename) :
    Agree (db.apply dir file) ↔ dir.recordsItself file = true := by
  obtain ⟨-,happlied,hrecorded⟩ := apply_facts h dir file
  unfold Agree
  simp only [happlied,List.map_append,List.map_singleton,List.mem_append,List.mem_singleton,
    hrecorded]
  constructor
  · intro hagree
    rcases (hagree (versionFromFilename file)).mpr (.inr rfl) with hold | ⟨hself,-⟩
    · exact absurd hold hnew
    · exact hself
  · intro hself v
    simp only [hself,true_and]

theorem at_record (h : At db done) :
    At ((db.apply dir file).record (versionFromFilename file)) (done ++ [file]) := by
  obtain ⟨htable,happlied,hrecorded⟩ := apply_facts h dir file
  refine ⟨isSome_record htable _,happlied,?_⟩
  intro v
  rw [mem_recorded_record htable,hrecorded,show
    ((db.apply dir file).record (versionFromFilename file)).applied = done ++ [file] from happlied,
    List.map_append,List.mem_append,List.map_singleton,List.mem_singleton]
  tauto

/-- What the rest of a run does from a consistent state: it applies files in their order, all of
them if it is not cut short, and ends in step with the record exactly if nothing came between. -/
structure Progress (dir : MigrationsDir) (attempt : Attempt) (done rest : List String)
    (result : Database × Option (List String)) : Prop where
  settled : Settled dir attempt rest ↔ Agree result.1
  inOrder : result.1.applied <+: done ++ rest
  complete : result.2.isSome = true → result.1.applied = done ++ rest

/-- What a call of `applyMigration` leaves, and what it takes for the run to be settled. -/
inductive Outcome (dir : MigrationsDir) (attempt : Attempt) (db : Database) (file : String) :
    Database × Bool → Prop
  | untouched (h : ∀ rest, Settled dir attempt (file :: rest)) :
      Outcome dir attempt db file (db,false)
  | unrecorded (h : ∀ rest, Settled dir attempt (file :: rest) ↔ dir.recordsItself file = true) :
      Outcome dir attempt db file (db.apply dir file,false)
  | unheard (h : ∀ rest, Settled dir attempt (file :: rest)) :
      Outcome dir attempt db file ((db.apply dir file).record (versionFromFilename file),false)
  | passed (h : ∀ rest, Settled dir attempt (file :: rest) ↔ Settled dir attempt rest) :
      Outcome dir attempt db file ((db.apply dir file).record (versionFromFilename file),true)

theorem applyMigration_outcome (dir : MigrationsDir) (attempt : Attempt) (db : Database)
    (file : String) : Outcome dir attempt db file (applyMigration dir attempt db file) := by
  unfold applyMigration
  cases hread : attempt (.readFile file) with
  | failed | lost =>
      apply Outcome.untouched
      intro rest
      simp [Settled,hread]
  | done =>
      cases hsql : attempt (.sql file) with
      | failed =>
          apply Outcome.untouched
          intro rest
          simp [Settled,hsql]
      | lost =>
          apply Outcome.unrecorded
          intro rest
          simp [Settled,hread,hsql]
      | done =>
          dsimp only
          cases hinsert : attempt (.insert (versionFromFilename file)) with
          | failed =>
              apply Outcome.unrecorded
              intro rest
              simp [Settled,hread,hsql,hinsert]
          | lost =>
              apply Outcome.unheard
              intro rest
              simp [Settled,hsql,hinsert]
          | done =>
              apply Outcome.passed
              intro rest
              simp [Settled,hread,hsql,hinsert]

theorem progress_cut {db' : Database} (hsettled : Settled dir attempt rest ↔ Agree db')
    (h : db'.applied <+: done ++ rest) : Progress dir attempt done rest (db',none) := by
  refine ⟨hsettled,h,?_⟩
  intro hsome
  cases hsome

theorem prefix_one (done rest : List String) (file : String) :
    done ++ [file] <+: done ++ file :: rest := by
  rw [List.prefix_append_right_inj,List.cons_prefix_cons]
  exact ⟨rfl,List.nil_prefix⟩

theorem runFiles_progress {appliedSet : List String} (h : At db done)
    (hnew : ((done ++ rest).map versionFromFilename).Nodup)
    (hset : ∀ file ∈ rest, versionFromFilename file ∉ appliedSet) :
    Progress dir attempt done rest (runFiles dir attempt db appliedSet rest) := by
  induction rest generalizing db done appliedSet with
  | nil =>
      rw [runFiles]
      refine ⟨iff_of_true trivial h.agree,?_,?_⟩
      · exact ⟨[],by rw [List.append_nil,List.append_nil,h.applied]⟩
      · intro _
        rw [List.append_nil,h.applied]
  | cons file rest ih =>
      have hfile : versionFromFilename file ∉ done.map versionFromFilename := by
        rw [List.map_append,List.nodup_append] at hnew
        intro hold
        exact hnew.2.2 _ hold _ (List.mem_map_of_mem List.mem_cons_self) rfl
      have hrecorded :
          At ((db.apply dir file).record (versionFromFilename file)) (done ++ [file]) :=
        at_record h
      rw [runFiles,if_neg (hset file List.mem_cons_self)]
      have houtcome := applyMigration_outcome dir attempt db file
      generalize applyMigration dir attempt db file = result at houtcome ⊢
      cases houtcome with
      | untouched hsettled =>
          apply progress_cut (iff_of_true (hsettled rest) h.agree)
          rw [h.applied]
          exact List.prefix_append _ _
      | unrecorded hsettled =>
          apply progress_cut
          · rw [hsettled,agree_apply_iff h hfile]
          · rw [(apply_facts h dir file).2.1]
            exact prefix_one done rest file
      | unheard hsettled =>
          apply progress_cut (iff_of_true (hsettled rest) hrecorded.agree)
          rw [hrecorded.applied]
          exact prefix_one done rest file
      | passed hsettled =>
          have hlist : done ++ [file] ++ rest = done ++ file :: rest := by simp
          rw [← hlist] at hnew
          have hset' : ∀ f ∈ rest,
              versionFromFilename f ∉ appliedSet ++ [versionFromFilename file] := by
            intro f hf
            rw [List.mem_append,List.mem_singleton,not_or]
            refine ⟨hset f (List.mem_cons_of_mem file hf),?_⟩
            intro hsame
            rw [List.map_append,List.map_append,List.nodup_append] at hnew
            exact hnew.2.2 (versionFromFilename file) (by simp) _ (List.mem_map_of_mem hf)
              hsame.symm
          have hrest := ih hrecorded hnew hset'
          refine ⟨(hsettled rest).trans hrest.settled,hlist ▸ hrest.inOrder,?_⟩
          intro hsome
          rw [Option.isSome_map] at hsome
          exact (hrest.complete hsome).trans hlist

/-- Files whose versions are recorded are passed over. -/
theorem runFiles_skip {appliedSet : List String}
    (h : ∀ file ∈ done, versionFromFilename file ∈ appliedSet) :
    runFiles dir attempt db appliedSet (done ++ rest) =
      runFiles dir attempt db appliedSet rest := by
  induction done with
  | nil => rfl
  | cons file done ih =>
      rw [List.cons_append,runFiles,if_pos (h file List.mem_cons_self)]
      exact ih fun f hf => h f (List.mem_cons_of_mem file hf)

end Run

/-! ## Runs again and again -/

/-- The versions recorded are those of the migrations whose SQL has taken effect, and these are the
first ones in the order of the file names, each once. -/
structure Consistent (dir : MigrationsDir) (db : Database) : Prop where
  agree : Agree db
  inOrder : db.applied <+: listMigrationFiles dir

/-- The files whose versions are not recorded. -/
def pending (dir : MigrationsDir) (db : Database) : List String :=
  (listMigrationFiles dir).filter fun file => versionFromFilename file ∉ db.recorded

/-- No failure or crash comes between the SQL of a pending file and the insert of its version,
unless the SQL inserts the version itself. -/
def Unbroken (dir : MigrationsDir) (db : Database) (attempt : Attempt) : Prop :=
  attempt .createTable = .done → attempt .select = .done → attempt .readdir = .done →
    Settled dir attempt (pending dir db)

section Attempts
variable {dir : MigrationsDir} {db : Database}

theorem filter_pending {files done rest : List String} (h : files = done ++ rest)
    (hnew : (files.map versionFromFilename).Nodup) {recorded : List String}
    (hrecorded : ∀ v, v ∈ recorded ↔ v ∈ done.map versionFromFilename) :
    files.filter (fun file => versionFromFilename file ∉ recorded) = rest := by
  subst h
  rw [List.map_append,List.nodup_append] at hnew
  rw [List.filter_append,List.filter_eq_nil_iff.mpr,List.filter_eq_self.mpr,List.nil_append]
  · intro file hfile
    rw [decide_eq_true_iff,hrecorded]
    intro hold
    exact hnew.2.2 _ hold _ (List.mem_map_of_mem hfile) rfl
  · intro file hfile
    rw [decide_eq_true_iff,hrecorded,not_not]
    exact List.mem_map_of_mem hfile

/-- From a consistent database a run ends in a consistent one exactly if it is not broken, and when
it is not cut short every migration has taken effect. -/
theorem runPendingMigrations_consistent (h : Consistent dir db) (attempt : Attempt) :
    (Unbroken dir db attempt ↔ Consistent dir (runPendingMigrations dir attempt db).1) ∧
      ((runPendingMigrations dir attempt db).2.isSome = true →
        (runPendingMigrations dir attempt db).1.applied = listMigrationFiles dir) := by
  have hensured : Consistent dir (ensureSchemaMigrations db) := ⟨h.agree,h.inOrder⟩
  unfold runPendingMigrations Unbroken
  cases hcreate : attempt .createTable with
  | failed => simp [h]
  | lost => simp [hensured]
  | done =>
      by_cases hread : attempt .select = .done ∧ attempt .readdir = .done
      · dsimp only
        rw [if_pos hread]
        obtain ⟨rest,hfiles⟩ := h.inOrder
        have hat : At (ensureSchemaMigrations db) db.applied := ⟨rfl,rfl,h.agree⟩
        have hpending : pending dir db = rest :=
          filter_pending hfiles.symm (nodup_versions dir) h.agree
        have hnew : ((db.applied ++ rest).map versionFromFilename).Nodup :=
          hfiles ▸ nodup_versions dir
        have hset : ∀ file ∈ rest, versionFromFilename file ∉ db.recorded := by
          intro file hfile
          rw [← hpending] at hfile
          exact of_decide_eq_true (List.mem_filter.mp hfile).2
        have hskip : ∀ file ∈ db.applied, versionFromFilename file ∈ db.recorded := by
          intro file hfile
          exact (h.agree _).mpr (List.mem_map_of_mem hfile)
        have hrun : runFiles dir attempt (ensureSchemaMigrations db) db.recorded
              (listMigrationFiles dir) =
            runFiles dir attempt (ensureSchemaMigrations db) db.recorded rest := by
          rw [← hfiles]
          exact runFiles_skip hskip
        have hprogress : Progress dir attempt db.applied rest
            (runFiles dir attempt (ensureSchemaMigrations db) db.recorded rest) :=
          runFiles_progress hat hnew hset
        have hrecorded : (ensureSchemaMigrations db).recorded = db.recorded := rfl
        rw [hrecorded,hrun,hpending]
        constructor
        · simp only [hread,true_imp_iff]
          rw [hprogress.settled]
          constructor
          · intro hagree
            exact ⟨hagree,hfiles ▸ hprogress.inOrder⟩
          · intro hnext
            exact hnext.agree
        · rw [← hfiles]
          exact hprogress.complete
      · dsimp only
        rw [if_neg hread]
        constructor
        · refine iff_of_true ?_ hensured
          intro _ hselect hreaddir
          exact absurd ⟨hselect,hreaddir⟩ hread
        · intro hsome
          cases hsome

end Attempts

/-- One run of the tool. -/
def step (dir : MigrationsDir) (db : Database) (attempt : Attempt) : Database :=
  (runPendingMigrations dir attempt db).1

/-- After every one of the attempts the record and the SQL that has taken effect agree, each
migration has taken effect at most once and in the order of the file names, and exactly once each
after an attempt that was not cut short. -/
def ExactlyOnce (dir : MigrationsDir) (db : Database) (attempts : List Attempt) : Prop :=
  ∀ earlier attempt, earlier ++ [attempt] <+: attempts →
    Consistent dir (run (step dir) db (earlier ++ [attempt])) ∧
    ((runPendingMigrations dir attempt (run (step dir) db earlier)).2.isSome = true →
      (run (step dir) db (earlier ++ [attempt])).applied = listMigrationFiles dir)

theorem exactlyOnce_cons {dir : MigrationsDir} {db : Database} {attempt : Attempt}
    {attempts : List Attempt} (h : Consistent dir db) :
    ExactlyOnce dir db (attempt :: attempts) ↔
      Unbroken dir db attempt ∧ ExactlyOnce dir (step dir db attempt) attempts := by
  obtain ⟨hiff,hcomplete⟩ := runPendingMigrations_consistent h attempt
  constructor
  · intro hall
    constructor
    · exact hiff.mpr (hall [] attempt (List.prefix_append [attempt] attempts)).1
    · intro earlier last hprefix
      exact hall (attempt :: earlier) last ((List.prefix_cons_inj attempt).mpr hprefix)
  · rintro ⟨hunbroken,hrest⟩ earlier last hprefix
    cases earlier with
    | nil =>
        obtain ⟨rfl,-⟩ := List.cons_prefix_cons.mp hprefix
        exact ⟨hiff.mp hunbroken,hcomplete⟩
    | cons first earlier =>
        obtain ⟨rfl,htail⟩ := List.cons_prefix_cons.mp hprefix
        exact hrest earlier last htail

/-- Migrations are applied exactly once in any sequence of attempts, from an empty database on, if
and only if in none of them a failure or a crash comes between the SQL of a file and its version. -/
theorem migrations_exactly_once_iff (dir : MigrationsDir) (attempts : List Attempt) :
    ExactlyOnce dir {} attempts ↔ Guarded (step dir) (Unbroken dir) {} attempts := by
  have hempty : Consistent dir {} := ⟨fun _ => Iff.rfl,List.nil_prefix⟩
  revert hempty
  generalize ({} : Database) = db
  intro h
  induction attempts generalizing db with
  | nil =>
      refine iff_of_true ?_ trivial
      intro earlier attempt hprefix
      have hnil := List.prefix_nil.mp hprefix
      cases earlier with
      | nil => cases hnil
      | cons first earlier => cases hnil
  | cons attempt attempts ih =>
      rw [exactlyOnce_cons h,guarded_cons]
      apply and_congr_right
      intro hunbroken
      exact ih _ ((runPendingMigrations_consistent h attempt).1.mp hunbroken)

/-- One migration whose SQL does not insert its version. -/
def initialSchema : MigrationsDir :=
  ⟨[("001_initial_schema.sql",true),("README.md",true)],fun _ => false,by decide⟩

/-- The connection is lost once the SQL is through. -/
def lostBeforeInsert : Attempt
  | .insert _ => .failed
  | _ => .done

theorem migration_applied_twice :
    (run (step initialSchema) {} [lostBeforeInsert,fun _ => .done]).applied =
      ["001_initial_schema.sql","001_initial_schema.sql"] ∧
    ¬ ExactlyOnce initialSchema {} [lostBeforeInsert,fun _ => .done] := by
  have htwice : (run (step initialSchema) {} [lostBeforeInsert,fun _ => .done]).applied =
      ["001_initial_schema.sql","001_initial_schema.sql"] := by decide +kernel
  refine ⟨htwice,?_⟩
  intro h
  have hprefix := (h [lostBeforeInsert] _ (List.prefix_refl _)).1.inOrder
  have hlength : (listMigrationFiles initialSchema).length = 1 := by decide +kernel
  have hle := hprefix.length_le
  rw [List.singleton_append,htwice,hlength] at hle
  exact absurd hle (by decide)

end Creditra.Migrations
