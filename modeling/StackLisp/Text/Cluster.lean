import StackLisp.Text.Cluster.Class

/-!
Clusters: the runs of characters that a reader of a text takes for one. Whether a character
belongs to the cluster before it can be told from its class and from the end of that cluster.
-/

namespace StackLisp

/-- What counts, at the end of a cluster, for whether the next character joins it. -/
structure ClusterEnd where
  last : ClusterClass
  /-- whether the last half of a flag waits for the other half -/
  halfFlag : Bool
  /-- whether the cluster ends with a pictograph and marks on it, and then perhaps a joiner -/
  pictograph : Bool
  consonant : Bool
  linked : Bool
  deriving DecidableEq, Repr, Inhabited

namespace ClusterEnd

def single (first : ClusterClass) : ClusterEnd where
  last := first
  halfFlag := first == .regional
  pictograph := first == .pictograph
  consonant := first == .consonant
  linked := false

/-- Nothing joins what it ends, as nothing joins the line end before a text. -/
def closed : ClusterEnd := .single .control

def joins (this : ClusterEnd) (next : ClusterClass) : Bool :=
  match this.last, next with
  | .carriageReturn, .lineFeed => true
  | .control, _ | .carriageReturn, _ | .lineFeed, _ => false
  | _, .control | _, .carriageReturn | _, .lineFeed => false
  | .blockLead, .blockLead | .blockLead, .blockVowel => true
  | .blockLead, .openBlock | .blockLead, .closedBlock => true
  | .openBlock, .blockVowel | .openBlock, .blockTail => true
  | .blockVowel, .blockVowel | .blockVowel, .blockTail => true
  | .closedBlock, .blockTail | .blockTail, .blockTail => true
  | _, .mark | _, .linker | _, .nonJoiner | _, .joiner | _, .spacingMark => true
  | .leadingSign, _ => true
  | .joiner, .pictograph => this.pictograph
  | .regional, .regional => this.halfFlag
  | _, .consonant => this.linked
  | _, _ => false

def extend (this : ClusterEnd) (next : ClusterClass) : ClusterEnd :=
  match next with
  | .mark => { this with last := next, pictograph := this.pictograph && this.last != .joiner }
  | .linker =>
    { this with
      last := next
      pictograph := this.pictograph && this.last != .joiner
      linked := this.consonant }
  | .nonJoiner =>
    { this with
      last := next
      pictograph := this.pictograph && this.last != .joiner
      consonant := false
      linked := false }
  | .joiner => { this with last := next, pictograph := this.pictograph && this.last != .joiner }
  | .regional => { ClusterEnd.single next with halfFlag := !this.halfFlag }
  | _ => .single next

end ClusterEnd

end StackLisp
