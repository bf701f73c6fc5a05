import Gart.Converter.Expansion

/-!
# Resolving external ids

`TxnLogParser::parse_again` with `get_gid` and `set_gid`: the second parsing step
gives an inserted vertex its gid and looks up the gids of all other entries. What
the maps hold comes from vertex insertions.
-/

namespace Gart.Converter
open Gart.Outcome Gart.Fragment

/-- The external ids and vertex counters by label. -/
structure IdMaps where
  stringOid2Gid : Int → String → Option Int := fun _ _ => none
  int64Oid2Gid : Int → Int → Option Int := fun _ _ => none
  vertexNums : Int → Nat := fun _ => 0
  vertexNumsPerFragment : Int → Nat → Nat := fun _ _ => 0

namespace IdMaps

/-- `get_gid` (`parser.cc:431-451`); -1 for an id that is not known. -/
def getGid (ids : IdMaps) (oid : String) (isStringOid : Bool) (vlabel : Int) : Except Fault Int :=
  match isStringOid with
  | false => do return (ids.int64Oid2Gid vlabel (← stoll oid)).getD (-1)
  | true => .ok ((ids.stringOid2Gid vlabel oid).getD (-1))

/-- `TxnLogParser::set_gid` (`parser.cc:453-460`) -/
def setGid (ids : IdMaps) (oid : String) (isStringOid : Bool) (vlabel gid : Int) :
    Except Fault IdMaps :=
  match isStringOid with
  | false => do
    let n ← stoll oid
    return { ids with int64Oid2Gid := fun l k =>
      if l = vlabel ∧ k = n then some gid else ids.int64Oid2Gid l k }
  | true => .ok { ids with stringOid2Gid := fun l k =>
      if l = vlabel ∧ k = oid then some gid else ids.stringOid2Gid l k }

/-- The next vertex of a label, for the fragment whose turn it is. -/
def countVertex (ids : IdMaps) (vlabel : Int) (fid : Nat) : IdMaps :=
  { ids with
    vertexNums := fun l =>
      if l = vlabel then (ids.vertexNums l + 1) % 2 ^ 64 else ids.vertexNums l
    vertexNumsPerFragment := fun l f =>
      if l = vlabel ∧ f = fid then (ids.vertexNumsPerFragment l f + 1) % 2 ^ 64
      else ids.vertexNumsPerFragment l f }

end IdMaps

/-- The gid of the next vertex of a label, round-robin over the fragments. -/
def nextGid (cfg : ParserConfig) (ids : IdMaps) (vlabel : Int) : Int :=
  let fid := ids.vertexNums vlabel % cfg.subgraphNum
  (IdParser.init cfg.subgraphNum).generateId fid vlabel.toNat (ids.vertexNumsPerFragment vlabel fid)

def assignGid (cfg : ParserConfig) (ids : IdMaps) (out : LogEntry) :
    Except Fault (IdMaps × LogEntry) :=
  if cfg.subgraphNum = 0 then
    .error .divisionByZero
  else do
    let counted := ids.countVertex out.vlabel (ids.vertexNums out.vlabel % cfg.subgraphNum)
    let gid := nextGid cfg ids out.vlabel
    return (← counted.setGid out.externalId out.isStringOid out.vlabel gid,
      { out with vertexGid := some gid })

def lookUpVertex (ids : IdMaps) (out : LogEntry) : Except Fault LogEntry := do
  let gid ← ids.getGid out.externalId out.isStringOid out.vlabel
  if gid = -1 then return { out with complete := false }
  else return { out with vertexGid := some gid }

def lookUpEdge (ids : IdMaps) (out : LogEntry) : Except Fault LogEntry := do
  let srcGid ← ids.getGid out.srcExternalId out.isSrcStringOid out.srcVlabel
  let dstGid ← ids.getGid out.dstExternalId out.isDstStringOid out.dstVlabel
  if srcGid = -1 ∨ dstGid = -1 then return { out with complete := false }
  else return { out with srcGid := some srcGid, dstGid := some dstGid }

/-- `TxnLogParser::parse_again` after it has set the epoch (`parser.cc:387-429`) -/
def resolve (cfg : ParserConfig) (ids : IdMaps) (out : LogEntry) :
    Except Fault (IdMaps × LogEntry) :=
  match out.entityType, out.opType with
  | .vertex, .insert => assignGid cfg ids out
  | .vertex, .delete => do return (ids, ← lookUpVertex ids out)
  | .vertex, .update => do return (ids, ← lookUpVertex ids out)
  | .vertex, _ => .ok (ids, out)
  | .edge, _ => do return (ids, ← lookUpEdge ids out)

/-- `TxnLogParser::parse_again` (`parser.cc:387-429`) -/
def parseAgain (cfg : ParserConfig) (ids : IdMaps) (out : LogEntry) (epoch : Int) :
    Except Fault (IdMaps × LogEntry) :=
  resolve cfg ids { out with epoch := epoch }

/-! ### What an entry keeps -/

/-- The kinds of vertex entries that refer to an earlier vertex. -/
def LogEntry.refersToVertex (e : LogEntry) : Prop :=
  e.entityType = .vertex ∧ (e.opType = .delete ∨ e.opType = .update)

def LogEntry.insertsVertex (e : LogEntry) : Prop := e.entityType = .vertex ∧ e.opType = .insert

instance (e : LogEntry) : Decidable e.insertsVertex := inferInstanceAs (Decidable (_ ∧ _))

/-- The ways in which `resolve` ends. -/
inductive Resolved (cfg : ParserConfig) (ids : IdMaps) (e : LogEntry) : IdMaps → LogEntry → Prop
  | assigned {ids' : IdMaps} : e.insertsVertex →
      (ids.countVertex e.vlabel (ids.vertexNums e.vlabel % cfg.subgraphNum)).setGid e.externalId
        e.isStringOid e.vlabel (nextGid cfg ids e.vlabel) = .ok ids' →
      Resolved cfg ids e ids' { e with vertexGid := some (nextGid cfg ids e.vlabel) }
  | vertex {gid : Int} : e.refersToVertex → gid ≠ -1 →
      ids.getGid e.externalId e.isStringOid e.vlabel = .ok gid →
      Resolved cfg ids e ids { e with vertexGid := some gid }
  | unknownVertex : e.refersToVertex →
      ids.getGid e.externalId e.isStringOid e.vlabel = .ok (-1) →
      Resolved cfg ids e ids { e with complete := false }
  | edge {src dst : Int} : e.entityType = .edge → src ≠ -1 → dst ≠ -1 →
      ids.getGid e.srcExternalId e.isSrcStringOid e.srcVlabel = .ok src →
      ids.getGid e.dstExternalId e.isDstStringOid e.dstVlabel = .ok dst →
      Resolved cfg ids e ids { e with srcGid := some src, dstGid := some dst }
  | unknownEdge {src dst : Int} : e.entityType = .edge → src = -1 ∨ dst = -1 →
      ids.getGid e.srcExternalId e.isSrcStringOid e.srcVlabel = .ok src →
      ids.getGid e.dstExternalId e.isDstStringOid e.dstVlabel = .ok dst →
      Resolved cfg ids e ids { e with complete := false }
  | other : e.entityType = .vertex → e.opType = .bulkloadEnd ∨ e.opType = .unknown →
      Resolved cfg ids e ids e

section
variable {cfg : ParserConfig} {ids ids' : IdMaps} {e out : LogEntry}

theorem not_insertsVertex_of_edge (h : e.entityType = .edge) : ¬e.insertsVertex := by
  intro hins
  rw [hins.1] at h
  cases h

theorem not_insertsVertex_of_refers (h : e.refersToVertex) : ¬e.insertsVertex := by
  intro hins
  rcases h.2 with hop | hop <;> rw [hins.2] at hop <;> cases hop

theorem lookUpVertex_spec (hkind : e.refersToVertex) :
    Ensures (lookUpVertex ids e) (Resolved cfg ids e ids) Stops := by
  unfold lookUpVertex
  cases hgid : ids.getGid e.externalId e.isStringOid e.vlabel with
  | error f => trivial
  | ok gid =>
    dsimp only [bind, Except.bind]
    split
    · rename_i hnone
      exact .unknownVertex hkind (by rw [hgid, hnone])
    · rename_i hsome
      exact .vertex hkind hsome hgid

theorem lookUpEdge_spec (hkind : e.entityType = .edge) :
    Ensures (lookUpEdge ids e) (Resolved cfg ids e ids) Stops := by
  unfold lookUpEdge
  cases hsrc : ids.getGid e.srcExternalId e.isSrcStringOid e.srcVlabel with
  | error f => trivial
  | ok src =>
    dsimp only [bind, Except.bind]
    cases hdst : ids.getGid e.dstExternalId e.isDstStringOid e.dstVlabel with
    | error f => trivial
    | ok dst =>
      dsimp only
      split
      · rename_i hnone
        exact .unknownEdge hkind hnone hsrc hdst
      · rename_i hsome
        exact .edge hkind (fun h => hsome (.inl h)) (fun h => hsome (.inr h)) hsrc hdst

theorem resolve_spec : Ensures (resolve cfg ids e) (fun r => Resolved cfg ids e r.1 r.2) Stops := by
  unfold resolve
  split
  case h_1 hentity hop =>
    unfold assignGid
    split
    · trivial
    · cases hset : (ids.countVertex e.vlabel
          (ids.vertexNums e.vlabel % cfg.subgraphNum)).setGid e.externalId e.isStringOid e.vlabel
          (nextGid cfg ids e.vlabel) with
      | error f => simp only [hset]; trivial
      | ok ids' =>
        simp only [hset]
        exact .assigned ⟨hentity, hop⟩ hset
  case h_2 hentity hop => exact Ensures.bind (lookUpVertex_spec ⟨hentity, .inl hop⟩) fun _ h => h
  case h_3 hentity hop => exact Ensures.bind (lookUpVertex_spec ⟨hentity, .inr hop⟩) fun _ h => h
  case h_4 hentity hinsert hdelete hupdate =>
    refine .other hentity ?_
    cases hop : e.opType with
    | insert => exact absurd hop hinsert
    | delete => exact absurd hop hdelete
    | update => exact absurd hop hupdate
    | bulkloadEnd => exact .inl rfl
    | unknown => exact .inr rfl
  case h_5 hentity => exact Ensures.bind (lookUpEdge_spec hentity) fun _ h => h

/-- The members that `parse_again` leaves as they are. -/
structure SameContent (e out : LogEntry) : Prop where
  entityType : out.entityType = e.entityType
  opType : out.opType = e.opType
  txId : out.txId = e.txId
  vlabel : out.vlabel = e.vlabel
  srcVlabel : out.srcVlabel = e.srcVlabel
  dstVlabel : out.dstVlabel = e.dstVlabel
  externalId : out.externalId = e.externalId
  srcExternalId : out.srcExternalId = e.srcExternalId
  dstExternalId : out.dstExternalId = e.dstExternalId
  isStringOid : out.isStringOid = e.isStringOid
  isSrcStringOid : out.isSrcStringOid = e.isSrcStringOid
  isDstStringOid : out.isDstStringOid = e.isDstStringOid

theorem Resolved.content (h : Resolved cfg ids e ids' out) :
    SameContent e out ∧ out.epoch = e.epoch := by
  cases h <;> exact ⟨⟨rfl, rfl, rfl, rfl, rfl, rfl, rfl, rfl, rfl, rfl, rfl, rfl⟩, rfl⟩

end

end Gart.Converter
