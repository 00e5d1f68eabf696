/-!
# Fresh names

When a name is taken, numbers are put behind it, starting with 2, until the result is free.  The
search looks at the name itself, then at `name2`, `name3` and so on, and stops at the first
candidate that is not blocked.  Only finitely many names are ever blocked; their number bounds the
search, and after that many blocked candidates the next one is free.
-/

namespace ApiScribe.Naming

/-- The candidates for a name: the name itself, then the name with the numbers from 2. -/
def candidate (base : String) : Nat → String
  | 0 => base
  | k + 1 => base ++ toString (k + 2)

/-- The number of the first candidate from the `k`-th on that is not blocked, when at most `bound`
candidates are. -/
def firstFree (blocked : String → Bool) (base : String) : (bound k : Nat) → Nat
  | 0, k => k
  | bound + 1, k =>
    if blocked (candidate base k) then firstFree blocked base bound (k + 1) else k

/-- The first candidate that is not in use. -/
def fresh (used : List String) (base : String) : String :=
  candidate base (firstFree used.contains base used.length 0)

end ApiScribe.Naming
