import FuzzyLogic.Formula.Compiled

/-!
# Formula/Cache — compiled formulas, kept for reuse

A cache keeps the most recently requested formulas, most recent first, and counts hits and misses.
A request that fails is a miss and leaves the kept formulas and their order alone; what cannot be
looked up at all is not counted.  Every formula that is compiled gets a new serial, so that a
formula handed out twice is seen to be the same.
-/

namespace FuzzyLogic

/-- What may be asked of a cache.  A request hands over its text by position: texts handed over by
name would be kept on their own, apart from these. -/
inductive CacheRequest
  | text (source : String)
  /-- A value that is no text, by the name of its type. -/
  | other (typeName : String)
  /-- A value that cannot be looked up. -/
  | unhashable (typeName : String)

/-- A compiled formula with the serial it was compiled under. -/
structure Handle where
  serial : Nat
  compiled : Compiled
  deriving DecidableEq

/-- The formulas kept for reuse. -/
structure CompileCache where
  /-- Kept formulas under their texts, most recently requested first. -/
  entries : List (String × Handle)
  hits : Nat
  misses : Nat

namespace CompileCache

/-- How many formulas are kept. -/
def capacity : Nat := 256

/-- Nothing kept, nothing counted. -/
def empty : CompileCache := ⟨[], 0, 0⟩

/-- The formula kept for a text. -/
def find? (c : CompileCache) (source : String) : Option Handle := c.entries.lookup source

/-- How many formulas are kept now. -/
def size (c : CompileCache) : Nat := c.entries.length

/-- Counts a hit and makes a formula the most recent one. -/
def hit (c : CompileCache) (source : String) (h : Handle) : CompileCache :=
  ⟨(source, h) :: c.entries.filter (·.1 != source), c.hits + 1, c.misses⟩

/-- Counts a miss. -/
def miss (c : CompileCache) : CompileCache := { c with misses := c.misses + 1 }

/-- Counts a miss and keeps a new formula; of too many formulas the least recent one goes. -/
def insert (c : CompileCache) (source : String) (h : Handle) : CompileCache :=
  ⟨((source, h) :: c.entries).take capacity, c.hits, c.misses + 1⟩

/-- Compiles what is asked for, or hands out what is kept. -/
def request (c : CompileCache) : CacheRequest → Except Fault Handle × CompileCache
  | .unhashable typeName => (.error (.unhashable typeName), c)
  | .other typeName => (.error (.badSource typeName), c.miss)
  | .text source =>
    match c.find? source with
    | some h => (.ok h, c.hit source h)
    | none =>
      match Compiled.ofSource source with
      | .error fault => (.error fault, c.miss)
      | .ok compiled =>
        let h : Handle := ⟨c.misses, compiled⟩
        (.ok h, c.insert source h)

/-- Requests in turn: every outcome with the cache after it. -/
def requestAll (c : CompileCache) : List CacheRequest → List (Except Fault Handle × CompileCache)
  | [] => []
  | r :: rest =>
    let (outcome, next) := c.request r
    (outcome, next) :: next.requestAll rest

end CompileCache

end FuzzyLogic
