import HighlightSync.Fault
import HighlightSync.KeyTable.Basic

/-!
# Requests to a table

A table is worked with by requests: some change it, some ask about it, and `fork` shows
what a change to a copy would give. A request that means nothing is refused.
`KeyTable.serve` answers one request and returns the table as it is afterwards, and
`KeyTable.serveAll` answers several in order.
-/

namespace HighlightSync.KeyTable

/-- What can be asked of a table. -/
inductive Request where
  | insert (k : Key) (fine : List Key)
  | remove (k : Key)
  | find (k : Key)
  | extend (pairs : List (Key × List Key))
  | collect (pairs : List (Key × List Key))
  | clear
  | invert
  | showInverse
  | equals (pairs : List (Key × List Key))
  | fork (k : Key) (fine : List Key)
  | describe
  | unknown

/-- What a table answers. -/
inductive Answer where
  | done
  | keys (found : Option KeySet)
  | table (t : KeyTable)
  | truth (b : Bool)
  | forked (copy : KeyTable) (same : Bool)
  | text (s : String)
  | refused (r : Refusal)

/-- Answer one request. Only the first component may differ from the table before. -/
def serve (t : KeyTable) : Request → KeyTable × Answer
  | .insert k fine => (t.insert k (.ofList fine), .done)
  | .remove k => (t.erase k, .keys (t.find? k))
  | .find k => (t, .keys (t.find? k))
  | .extend pairs => (t.extend pairs, .done)
  | .collect pairs => (ofPairs pairs, .done)
  | .clear => (∅, .done)
  | .invert => (t.inverse, .done)
  | .showInverse => (t, .table t.inverse)
  | .equals pairs => (t, .truth (decide (t = ofPairs pairs)))
  | .fork k fine =>
      let copy := t.insert k (.ofList fine)
      (t, .forked copy (decide (copy = t)))
  | .describe => (t, .text t.render)
  | .unknown => (t, .refused .unknownOperation)

/-- Answer requests in order, with the table after each. -/
def serveAll (t : KeyTable) : List Request → List (KeyTable × Answer)
  | [] => []
  | r :: rs => t.serve r :: serveAll (t.serve r).1 rs

end HighlightSync.KeyTable
