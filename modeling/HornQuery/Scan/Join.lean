import HornQuery.Scan.Evaluation

/-!
# Joins that test early

The number of combinations of rows grows with every source, so a join does not list them all. It tries
a condition as soon as no source that is still to be drawn has a part in it, and gives up a combination
at the first condition that is false. `Join.any` also stops at the first combination that is left.

A `Test` is a condition made ready for that: it says which sources it reads, and its result depends on
nothing else. The main statements are that nothing is lost and nothing is added:

* `Join.all_eq_filter`: `Join.all` lists the combinations for which all tests are true, in order.
* `Join.any_eq_any`: `Join.any` says whether there is one.
* `Condition.test_holds`, `Scan.test_holds`: tests say what conditions and scans mean.
-/

namespace HornQuery

/-! ### Environments that agree -/

/-- The environments give the same values to the columns of the named sources and to placeholders. -/
def Env.AgreesOn (env env' : Env) (names : List String) : Prop :=
  (∀ name ∈ names, env.column name = env'.column name) ∧ env.param = env'.param

namespace Env.AgreesOn

variable {env env' : Env} {names names' : List String}

theorem mono (h : env.AgreesOn env' names) (hsub : ∀ name ∈ names', name ∈ names) :
    env.AgreesOn env' names' :=
  ⟨fun name hn ↦ h.1 name (hsub name hn), h.2⟩

theorem append_left (h : env.AgreesOn env' (names ++ names')) : env.AgreesOn env' names :=
  h.mono fun _ hn ↦ List.mem_append_left _ hn

theorem append_right (h : env.AgreesOn env' (names ++ names')) : env.AgreesOn env' names' :=
  h.mono fun _ hn ↦ List.mem_append_right _ hn

/-- Drawing the same row keeps agreement. -/
theorem bind (h : env.AgreesOn env' names) (name : String) (columns : List String) (row : List Cell) :
    (env.bind name columns row).AgreesOn (env'.bind name columns row) names := by
  refine ⟨fun n hn ↦ ?_, h.2⟩
  funext column
  simp only [Env.bind, h.1 n hn]

end Env.AgreesOn

/-- Drawing rows changes the columns of the sources drawn and nothing else. -/
theorem Database.agreesOn_of_mem_draws (db : Database) {sources : List Source} {names : List String}
    {env e : Env} (hnot : ∀ s ∈ sources, s.name ∉ names) (he : e ∈ db.draws sources env) :
    env.AgreesOn e names := by
  induction sources generalizing env with
  | nil =>
    obtain rfl : e = env := by simpa [Database.draws] using he
    exact ⟨fun _ _ ↦ rfl, rfl⟩
  | cons s rest ih =>
    obtain ⟨row, _, he⟩ := List.mem_flatMap.mp he
    have later := ih (fun t ht ↦ hnot t (List.mem_cons_of_mem _ ht)) he
    refine ⟨fun name hn ↦ ?_, later.2⟩
    rw [← later.1 name hn]
    funext column
    have hne : name ≠ s.name := fun h ↦ hnot s List.mem_cons_self (h ▸ hn)
    simp [Env.bind, hne]

/-! ### Tests -/

/-- A condition to be tried during a join. -/
structure Test where
  /-- The sources whose columns it reads. -/
  reads : List String
  /-- Whether it is true. -/
  holds : Env → Bool
  /-- It depends on nothing but what it reads. -/
  holds_congr : ∀ {env env' : Env}, env.AgreesOn env' reads → holds env = holds env'

namespace Test

/-- Whether a test reads a column of one of some sources. -/
def waitsFor (sources : List Source) (t : Test) : Bool :=
  sources.any fun s ↦ t.reads.contains s.name

/-- The tests that read a column of one of some sources. -/
def waiting (sources : List Source) (tests : List Test) : List Test :=
  tests.filter (·.waitsFor sources)

/-- The tests that can be tried before any of some sources is drawn. -/
def ready (sources : List Source) (tests : List Test) : List Test :=
  tests.filter fun t ↦ !t.waitsFor sources

/-- Whether all tests are true. -/
def holdAll (tests : List Test) (env : Env) : Bool :=
  tests.all (·.holds env)

theorem holdAll_congr {tests : List Test} {env env' : Env}
    (h : ∀ t ∈ tests, env.AgreesOn env' t.reads) : holdAll tests env = holdAll tests env' := by
  rw [Bool.eq_iff_iff]
  simp only [holdAll, List.all_eq_true]
  exact forall_congr' fun t ↦ forall_congr' fun ht ↦ by rw [t.holds_congr (h t ht)]

/-- A test that waits for no source has its final result before any of them is drawn. -/
theorem holds_of_mem_draws (db : Database) {sources : List Source} {t : Test} {env e : Env}
    (hready : t.waitsFor sources = false) (he : e ∈ db.draws sources env) :
    t.holds e = t.holds env := by
  have hnot : ∀ s ∈ sources, s.name ∉ t.reads := by simpa [waitsFor] using hready
  exact (t.holds_congr (db.agreesOn_of_mem_draws hnot he)).symm

/-- On a combination, all tests are true if those that were ready are true before it is drawn and the
others are true of it. -/
theorem holdAll_of_mem_draws (db : Database) {sources : List Source} (tests : List Test) {env e : Env}
    (he : e ∈ db.draws sources env) :
    holdAll tests e = (holdAll (ready sources tests) env && holdAll (waiting sources tests) e) := by
  induction tests with
  | nil => rfl
  | cons t tests ih =>
    simp only [holdAll, ready, waiting] at ih
    cases hw : t.waitsFor sources with
    | true => simp only [holdAll, ready, waiting, List.all_cons, List.filter_cons, hw, ih]; simp [Bool.and_left_comm]
    | false =>
      simp only [holdAll, ready, waiting, List.all_cons, List.filter_cons, hw, ih,
        holds_of_mem_draws db hw he]
      simp [Bool.and_assoc]

end Test

/-! ### Joins -/

namespace Join

variable (db : Database)

/-- The ways to draw rows for which all tests are true. -/
def all : List Source → List Test → Env → List Env
  | [], tests, env => if Test.holdAll tests env then [env] else []
  | s :: rest, tests, env =>
    if Test.holdAll (Test.ready (s :: rest) tests) env then
      let waiting := Test.waiting (s :: rest) tests
      let t := db.sourceTable s
      t.rows.flatMap fun row ↦ all rest waiting (env.bind s.name t.columns row)
    else []

/-- Whether all tests are true for some way to draw rows. -/
def any : List Source → List Test → Env → Bool
  | [], tests, env => Test.holdAll tests env
  | s :: rest, tests, env =>
    Test.holdAll (Test.ready (s :: rest) tests) env &&
      let waiting := Test.waiting (s :: rest) tests
      let t := db.sourceTable s
      t.rows.any fun row ↦ any rest waiting (env.bind s.name t.columns row)

/-- A join lists the combinations for which all tests are true. -/
theorem all_eq_filter (sources : List Source) (tests : List Test) (env : Env) :
    all db sources tests env = (db.draws sources env).filter (Test.holdAll tests) := by
  induction sources generalizing tests env with
  | nil => simp [all, Database.draws, List.filter_cons]
  | cons s rest ih =>
    rw [List.filter_congr fun e he ↦ Test.holdAll_of_mem_draws db tests he]
    cases hready : Test.holdAll (Test.ready (s :: rest) tests) env with
    | true => simp [all, hready, ih, Database.draws, List.filter_flatMap]
    | false => simp [all, hready]

/-- A join succeeds exactly if all tests are true for some combination. -/
theorem any_eq_any (sources : List Source) (tests : List Test) (env : Env) :
    any db sources tests env = (db.draws sources env).any (Test.holdAll tests) := by
  have hall : any db sources tests env = (all db sources tests env).any fun _ ↦ true := by
    induction sources generalizing tests env with
    | nil => cases h : Test.holdAll tests env <;> simp [any, all, h]
    | cons s rest ih =>
      cases hready : Test.holdAll (Test.ready (s :: rest) tests) env with
      | true => simp [any, all, hready, ih, List.any_flatMap]
      | false => simp [any, all, hready]
  rw [hall, all_eq_filter, List.any_filter]
  simp

/-- The outcome of a join depends on nothing but what its tests read. -/
theorem any_congr {sources : List Source} {tests : List Test} {env env' : Env}
    (h : ∀ t ∈ tests, env.AgreesOn env' t.reads) :
    any db sources tests env = any db sources tests env' := by
  induction sources generalizing tests env env' with
  | nil => exact Test.holdAll_congr h
  | cons s rest ih =>
    have hrow : ∀ row, any db rest (Test.waiting (s :: rest) tests)
          (env.bind s.name (db.sourceTable s).columns row) =
        any db rest (Test.waiting (s :: rest) tests)
          (env'.bind s.name (db.sourceTable s).columns row) :=
      fun row ↦ ih fun t ht ↦ (h t (List.mem_filter.mp ht).1).bind _ _ _
    have hready : Test.holdAll (Test.ready (s :: rest) tests) env =
        Test.holdAll (Test.ready (s :: rest) tests) env' :=
      Test.holdAll_congr fun t ht ↦ h t (List.mem_filter.mp ht).1
    simp only [any, hrow, hready]

end Join

/-! ### Conditions as tests -/

/-- The source whose column an expression is. -/
def Expr.reads : Expr → List String
  | .column source _ => [source]
  | _ => []

theorem Expr.value_congr {env env' : Env} (e : Expr) (h : env.AgreesOn env' e.reads) :
    e.value env = e.value env' := by
  cases e with
  | column source field => exact congrFun (h.1 source (by simp [Expr.reads])) field
  | int value => rfl
  | param key => exact congrFun h.2 key

mutual

/-- A condition as a test. -/
def Condition.test (db : Database) : Condition → Test
  | .eq left right =>
    { reads := left.reads ++ right.reads
      holds := fun env ↦ (left.value env).equals (right.value env)
      holds_congr := fun h ↦ by
        rw [left.value_congr h.append_left, right.value_congr h.append_right] }
  | .exists scan => scan.test db

/-- The existence of a combination of a scan as a test. -/
def Scan.test (db : Database) : Scan → Test
  | ⟨sources, conditions, _⟩ =>
    let tests := Condition.tests db conditions
    { reads := tests.flatMap (·.reads)
      holds := Join.any db sources tests
      holds_congr := fun h ↦ Join.any_congr db fun t ht ↦
        h.mono fun _ hn ↦ List.mem_flatMap.mpr ⟨t, ht, hn⟩ }

/-- Conditions as tests. -/
def Condition.tests (db : Database) : List Condition → List Test
  | [] => []
  | c :: cs => c.test db :: Condition.tests db cs

end

mutual

/-- A condition's test says what the condition means. -/
theorem Condition.test_holds (db : Database) (env : Env) :
    (c : Condition) → (c.test db).holds env = c.holds db env
  | .eq left right => by simp [Condition.test, Condition.holds]
  | .exists scan => by
    simp only [Condition.test, Condition.holds]
    exact scan.test_holds db env

/-- A scan's test says whether there is a combination. -/
theorem Scan.test_holds (db : Database) (env : Env) :
    (s : Scan) → (s.test db).holds env = s.holds db env
  | ⟨sources, conditions, _⟩ => by
    simp only [Scan.test, Scan.holds, Join.any_eq_any]
    exact congrArg _ (funext fun e ↦ Condition.holdAll_tests db e conditions)

/-- The tests of conditions are all true exactly if the conditions are. -/
theorem Condition.holdAll_tests (db : Database) (env : Env) :
    (cs : List Condition) → Test.holdAll (Condition.tests db cs) env = Condition.holdAll db env cs
  | [] => rfl
  | c :: cs => by
    have hcs := Condition.holdAll_tests db env cs
    simp only [Test.holdAll] at hcs
    simp only [Condition.tests, Condition.holdAll, Test.holdAll, List.all_cons, hcs,
      c.test_holds db env]

end

/-- The solutions of a scan, by a join that tests early. -/
theorem Scan.solutions_eq_join (db : Database) (env : Env) (s : Scan) :
    s.solutions db env = Join.all db s.sources (Condition.tests db s.conditions) env := by
  rw [Join.all_eq_filter]
  exact List.filter_congr fun e _ ↦ (Condition.holdAll_tests db e s.conditions).symm

end HornQuery
