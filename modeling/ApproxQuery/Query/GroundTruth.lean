import ApproxQuery.Query.Statement

/-!
# True counts

The number of rows of a query as a database counts them, within a limit of time.
-/

namespace ApproxQuery

/-- What a database replies to a statement that counts rows. -/
inductive CountReply where
  | count (rows : Nat)
  | failed (reason : String)
  /-- No reply within the limit. -/
  | late
deriving DecidableEq, Repr

inductive GroundTruthError where
  /-- No reply came within so many milliseconds. -/
  | timeout (limit : Nat)
  | backend (reason : String)
  | query (e : QueryError)
deriving DecidableEq, Repr

/-- A time in milliseconds: in seconds from one second on, without zeros at the end. -/
def shownTime (ms : Nat) : String :=
  if ms = 0 then "0ns"
  else if ms < 1000 then toString ms ++ "ms"
  else
    let fraction := (toString (1000 + ms % 1000)).toList.drop 1
    let digits := (fraction.reverse.dropWhile (· = '0')).reverse
    toString (ms / 1000) ++ (if digits = [] then "" else "." ++ String.ofList digits) ++ "s"

def GroundTruthError.message : GroundTruthError → String
  | timeout limit => "Ground truth query timed out after " ++ shownTime limit
  | backend reason => "Ground truth backend error: " ++ reason
  | query e => e.message

variable {N : Type} [Scalar N]

/-- The statement that counts the rows of a query, and their number. -/
def Query.groundTruth (q : Query N) (database : String → CountReply) (limit : Nat) :
    Except GroundTruthError (String × Nat) := do
  let statement := (← (q.statement "COUNT(*)").mapError .query).text
  match database statement with
  | .count rows => .ok (statement, rows)
  | .failed reason => .error (.backend reason)
  | .late => .error (.timeout limit)

end ApproxQuery
