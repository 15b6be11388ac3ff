import RuleProver.Benchmark

/-!
# Profiles

A profile says how much time a run spent in each source file. Time is a project's *own* when the
file lies in its repository and is part of the code under test: the benchmarks themselves, the
measuring tools, and built or borrowed code are not. Other time is *foreign*, and the part of it
that ran in compiled code is counted apart.
-/

namespace RuleProver

/-- The time spent in each file, and in all. -/
structure Profile where
  total : Float
  rows : List (String × Float)

namespace Profile

/-- The directory of the repository. -/
def repository : String := "/repo"

/-- The file of the benchmarks. -/
def benchmarkFile : String := "microbench.py"

/-- What the names of the measuring tools start with. -/
def toolStart : String := "_pti_"

/-- The directories whose code is built or borrowed. -/
def excludedDirectories : List String := ["build", "vendor", "site-packages"]

/-- The place of compiled functions, which have no file. -/
def compiledPlace : String := "~"

/-- Whether a file is part of the code under test. -/
def isOwn (file : String) : Bool :=
  file.startsWith "/" &&
    let path := Path.resolve "/" file
    let inside := (Path.parts path).drop (Path.parts repository).length
    let name := Path.fileName path
    path.startsWith (repository ++ "/") && name != benchmarkFile && !name.startsWith toolStart
      && !inside.any (excludedDirectories.contains ·)

/-- Whether time in a file is time in compiled code. -/
def isCompiled (file : String) : Bool := file == compiledPlace || file.endsWith ".so"

/-- The time spent in the files with a property. -/
def timeIn (p : Profile) (f : String → Bool) : Float :=
  ((p.rows.filter fun r => f r.1).map (·.2)).foldl (· + ·) 0.0

/-- A part of the time as a fraction of all of it. There is none if there is no time at all. -/
def shareOf (p : Profile) (t : Float) : Float := if 0 < p.total then t / p.total else 0.0

/-- The fraction of own time, with three digits after the point. -/
def ownShare (p : Profile) : Float := Decimal.roundTo 3 (p.shareOf (p.timeIn isOwn))

/-- The fraction of time in compiled code, with three digits after the point. -/
def compiledShare (p : Profile) : Float := Decimal.roundTo 3 (p.shareOf (p.timeIn isCompiled))

/-- The own time in milliseconds, with three digits after the point. -/
def ownMillis (p : Profile) : Float := Decimal.roundTo 3 (p.timeIn isOwn * 1000.0)

/-- A part of the time in percent, with one digit after the point. -/
def percentOf (p : Profile) (t : Float) : Float :=
  Decimal.roundTo 1 (if 0 < p.total then 100.0 * t / p.total else 0.0)

/-- What a file is called in a list of the files that take most time. -/
def shortName (file : String) : String :=
  if file == compiledPlace then "builtins"
  else
    let name := (Path.fileName file).toList
    String.ofList (if name.drop (name.length - 3) = ".py".toList then name.take (name.length - 3) else name)

/-- The number of foreign files that are listed. -/
def listedFiles : Nat := 2

/-- The foreign files that take most time, with their part of it in percent. -/
def foreignFiles (p : Profile) : List (Float × String) :=
  if 0 < p.total then
    let rows := (p.rows.filter fun r => !isOwn r.1).mergeSort fun a b => !decide (a.2 < b.2)
    (rows.take listedFiles).map fun r => (p.percentOf r.2, shortName r.1)
  else []

/-- The profile that is taken as the `n`th, when profiles are taken round and round. -/
def nth (ps : List Profile) (n : Nat) : Profile := (ps[n % ps.length]?).getD ⟨0.0, []⟩

end Profile

/-! ## Own time of a suite -/

/-- How much of the time of a benchmark was its own, and which foreign files took most. -/
structure OwnTime where
  name : String
  percent : Float
  foreign : List (Float × String)

namespace OwnTime

/-- What stands for the percentage of a benchmark that failed. -/
def failedPercent : Float := -1.0

/-- A benchmark that failed. -/
def ofFailure (name : String) (f : Failure) : OwnTime :=
  ⟨name, failedPercent, [(0.0, "<" ++ f.kind ++ ">")]⟩

/-- The own time of each benchmark, from the profiles that are left from the `n`th on. A profile is
taken as soon as a benchmark is set up. -/
def measure (ps : List Profile) : Nat → List Benchmark → List OwnTime
  | _, [] => []
  | n, b :: bs =>
    match b.setUpFailure with
    | some f => ofFailure b.name f :: measure ps n bs
    | none =>
      let p := Profile.nth ps n
      (match b.outcome [] with
        | .failed f => ofFailure b.name f
        | _ => ⟨b.name, p.percentOf (p.timeIn Profile.isOwn), p.foreignFiles⟩)
        :: measure ps (n + 1) bs

end OwnTime

end RuleProver
