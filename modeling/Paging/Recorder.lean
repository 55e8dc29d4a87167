import Paging.Source
import Paging.Table.Basic

/-!
Sources that record what they are asked. A recorder answers with prepared rows, which it neither filters nor
sorts, and with a prepared count; it can be told to fail, and to pay no heed to its limit. `Uncounted` is
a recorder that leaves everything optional about sources as it is.
-/

namespace Paging

inductive Call
  | restrict (filter : RangeFilter)
  | orderBy (key : SortKey)
  | thenBy (key : SortKey)
  | setLimit (limit : Nat)
  | setOffset (offset : Nat)
  | count
  | fetch
  deriving DecidableEq

def Call.text : Call → String
  | .restrict filter => "set_filter " ++ filter.text
  | .orderBy key => "set_order " ++ key.text
  | .thenBy key => "add_order " ++ key.text
  | .setLimit limit => "set_limit " ++ limit.repr
  | .setOffset offset => "set_offset " ++ offset.repr
  | .count => "count"
  | .fetch => "execute"

inductive RecorderError
  | unavailable
  deriving DecidableEq, Repr

def RecorderError.message : RecorderError → String
  | .unavailable => "source unavailable"

structure Recorder where
  rows : List Json.Value
  total : Option Nat := none
  failsToCount : Bool := false
  failsToFetch : Bool := false
  ignoresLimit : Bool := false
  limit : Option Nat := none
  /-- What it was asked, the first thing first. -/
  calls : List Call := []

namespace Recorder

def record (recorder : Recorder) (call : Call) : Recorder :=
  { recorder with calls := recorder.calls ++ [call] }

def setLimit (recorder : Recorder) (limit : Nat) : Recorder :=
  { recorder.record (.setLimit limit) with limit := some limit }

def count (recorder : Recorder) : Except RecorderError (Option Nat) :=
  if recorder.failsToCount then .error .unavailable else .ok recorder.total

/-- The prepared rows, cut to the last limit it was given. -/
def fetch (recorder : Recorder) : Except RecorderError (List Json.Value) :=
  if recorder.failsToFetch then .error .unavailable
  else match recorder.limit with
    | some limit => .ok (if recorder.ignoresLimit then recorder.rows else recorder.rows.take limit)
    | none => .ok recorder.rows

instance : Source Recorder Json.Value RecorderError where
  restrict recorder filter := recorder.record (.restrict filter)
  orderBy recorder key := recorder.record (.orderBy key)
  thenBy recorder key := recorder.record (.thenBy key)
  setLimit := setLimit
  setOffset recorder offset := recorder.record (.setOffset offset)
  count recorder := return (recorder.count, recorder.record .count)
  fetch recorder := return (recorder.fetch, recorder.record .fetch)
  errorText := RecorderError.message

/-- A recorder that does not offer to count. -/
structure Uncounted where
  recorder : Recorder

instance : Source Uncounted Json.Value RecorderError where
  restrict source filter := ⟨source.recorder.record (.restrict filter)⟩
  orderBy source key := ⟨source.recorder.record (.orderBy key)⟩
  thenBy source key := ⟨source.recorder.record (.thenBy key)⟩
  setLimit source limit := ⟨source.recorder.setLimit limit⟩
  setOffset source offset := ⟨source.recorder.record (.setOffset offset)⟩
  fetch source := return (source.recorder.fetch, ⟨source.recorder.record .fetch⟩)
  errorText := RecorderError.message

end Recorder

end Paging
