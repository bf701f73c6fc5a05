import Gart.Converter.Resume

/-!
# References of the unified log

An edge, and an update or deletion of a vertex, refer to vertices by their gids.
The gids come from the maps of the parser, which hold what earlier vertex
insertions have assigned. An unresolved entry is marked incomplete, but
`process_binlog_step_2` writes it all the same.
-/

namespace Gart.Converter
open Gart.Outcome Gart.Decimal

/-! ### What the maps hold -/

structure VertexKey where
  vlabel : Int
  oid : String
  isStringOid : Bool
  deriving DecidableEq

namespace LogEntry

def vertexKey (e : LogEntry) : VertexKey := ⟨e.vlabel, e.externalId, e.isStringOid⟩

def srcKey (e : LogEntry) : VertexKey := ⟨e.srcVlabel, e.srcExternalId, e.isSrcStringOid⟩

def dstKey (e : LogEntry) : VertexKey := ⟨e.dstVlabel, e.dstExternalId, e.isDstStringOid⟩

def references (e : LogEntry) : List VertexKey :=
  match e.entityType with
  | .vertex =>
    match e.opType with
    | .delete | .update => [e.vertexKey]
    | _ => []
  | .edge => [e.srcKey, e.dstKey]

end LogEntry

/-- A vertex insertion among the messages has assigned the gid to the key. -/
def AssignedIn (messages : List Message) (key : VertexKey) (gid : Int) : Prop :=
  ∃ m ∈ messages, m.entry.insertsVertex ∧ m.entry.vertexKey = key ∧ m.entry.vertexGid = some gid

def InsertedIn (entries : List LogEntry) (key : VertexKey) : Prop :=
  ∃ e ∈ entries, e.insertsVertex ∧ e.vertexKey = key

instance (entries : List LogEntry) (key : VertexKey) : Decidable (InsertedIn entries key) :=
  inferInstanceAs (Decidable (∃ e ∈ entries, e.insertsVertex ∧ e.vertexKey = key))

/-- The gids of an entry that refers to vertices were assigned by earlier messages. -/
def Refers (earlier : List Message) (e : LogEntry) : Prop :=
  match e.entityType with
  | .vertex =>
    match e.opType with
    | .delete | .update => ∃ gid, e.vertexGid = some gid ∧ AssignedIn earlier e.vertexKey gid
    | _ => True
  | .edge => ∃ src dst, e.srcGid = some src ∧ e.dstGid = some dst ∧
      AssignedIn earlier e.srcKey src ∧ AssignedIn earlier e.dstKey dst

/-- Referential integrity: every message refers to vertices inserted by earlier messages. -/
def Referential (messages : List Message) : Prop :=
  ∀ earlier m later, messages = earlier ++ m :: later → Refers earlier m.entry

/-- Every entry refers to vertices that an earlier entry inserts. -/
def Resolvable (entries : List LogEntry) : Prop :=
  ∀ earlier e later, entries = earlier ++ e :: later → ∀ key ∈ e.references, InsertedIn earlier key

def entriesOf (cfg : Config) (events : List Event) : List LogEntry :=
  events.flatMap fun event =>
    match processBinlogStep1 cfg.parser event.1 with
    | .ok es => es
    | .error _ => []

/-! ### Appending to a log -/

section append
variable {messages : List Message} {m : Message} {entries : List LogEntry} {e : LogEntry}
  {key : VertexKey} {gid : Int}

theorem AssignedIn.append (h : AssignedIn messages key gid) (more : List Message) :
    AssignedIn (messages ++ more) key gid := by
  obtain ⟨m, hm, hrest⟩ := h
  exact ⟨m, List.mem_append_left _ hm, hrest⟩

theorem InsertedIn.append (h : InsertedIn entries key) (more : List LogEntry) :
    InsertedIn (entries ++ more) key := by
  obtain ⟨e, he, hrest⟩ := h
  exact ⟨e, List.mem_append_left _ he, hrest⟩

theorem snoc_split {α : Type} {xs earlier later : List α} {x y : α}
    (h : xs ++ [x] = earlier ++ y :: later) :
    (later = [] ∧ earlier = xs ∧ y = x) ∨ ∃ rest, later = rest ++ [x] ∧ xs = earlier ++ y :: rest := by
  rcases List.eq_nil_or_concat later with rfl | ⟨rest, z, rfl⟩
  · have hsnoc := List.append_inj' h rfl
    exact .inl ⟨rfl, hsnoc.1.symm, (List.cons.inj hsnoc.2).1.symm⟩
  · rw [List.concat_eq_append] at h ⊢
    have hassoc : earlier ++ y :: (rest ++ [z]) = (earlier ++ y :: rest) ++ [z] := by simp
    rw [hassoc] at h
    have hsnoc := List.append_inj' h rfl
    exact .inr ⟨rest, by rw [(List.cons.inj hsnoc.2).1], hsnoc.1⟩

theorem referential_append : Referential (messages ++ [m]) ↔
    Referential messages ∧ Refers messages m.entry := by
  constructor
  · intro h
    refine ⟨fun earlier x later hsplit => h earlier x (later ++ [m]) (by simp [hsplit]), ?_⟩
    exact h messages m [] rfl
  · rintro ⟨h, hm⟩ earlier x later hsplit
    rcases snoc_split hsplit with ⟨-, rfl, rfl⟩ | ⟨rest, -, hrest⟩
    · exact hm
    · exact h earlier x rest hrest

theorem resolvable_append : Resolvable (entries ++ [e]) ↔
    Resolvable entries ∧ ∀ key ∈ e.references, InsertedIn entries key := by
  constructor
  · intro h
    refine ⟨fun earlier x later hsplit => h earlier x (later ++ [e]) (by simp [hsplit]), ?_⟩
    exact h entries e [] rfl
  · rintro ⟨h, he⟩ earlier x later hsplit
    rcases snoc_split hsplit with ⟨-, rfl, rfl⟩ | ⟨rest, -, hrest⟩
    · exact he
    · exact h earlier x rest hrest

theorem Resolvable.of_append {more : List LogEntry} (h : Resolvable (entries ++ more)) :
    Resolvable entries :=
  fun earlier x later hsplit => h earlier x (later ++ more) (by simp [hsplit])

theorem inserted_append : InsertedIn (entries ++ [e]) key ↔
    InsertedIn entries key ∨ e.insertsVertex ∧ e.vertexKey = key := by
  simp only [InsertedIn, List.mem_append, List.mem_singleton]
  constructor
  · rintro ⟨x, hx | rfl, hrest⟩
    · exact .inl ⟨x, hx, hrest⟩
    · exact .inr hrest
  · rintro (⟨x, hx, hrest⟩ | hrest)
    · exact ⟨x, .inl hx, hrest⟩
    · exact ⟨e, .inr rfl, hrest⟩

theorem assigned_append : AssignedIn (messages ++ [m]) key gid ↔
    AssignedIn messages key gid ∨
      m.entry.insertsVertex ∧ m.entry.vertexKey = key ∧ m.entry.vertexGid = some gid := by
  simp only [AssignedIn, List.mem_append, List.mem_singleton]
  constructor
  · rintro ⟨x, hx | rfl, hrest⟩
    · exact .inl ⟨x, hx, hrest⟩
    · exact .inr hrest
  · rintro (⟨x, hx, hrest⟩ | hrest)
    · exact ⟨x, .inl hx, hrest⟩
    · exact ⟨m, .inr rfl, hrest⟩

end append

/-! ### The maps as one map of keys -/

def VertexKey.Canonical (key : VertexKey) : Prop := CanonicalId key.oid key.isStringOid

def IdMaps.lookup (ids : IdMaps) (key : VertexKey) : Option Int :=
  match key.isStringOid with
  | true => ids.stringOid2Gid key.vlabel key.oid
  | false =>
    match stoll key.oid with
    | .ok n => ids.int64Oid2Gid key.vlabel n
    | .error _ => none

section maps
variable {ids ids' : IdMaps} {key : VertexKey} {gid : Int}

theorem getGid_lookup (h : ids.getGid key.oid key.isStringOid key.vlabel = .ok gid) :
    gid = (ids.lookup key).getD (-1) := by
  unfold IdMaps.getGid at h
  unfold IdMaps.lookup
  cases hstring : key.isStringOid with
  | true =>
    rw [hstring] at h
    cases h
    rfl
  | false =>
    rw [hstring] at h
    cases hn : stoll key.oid with
    | error f =>
      simp only [hn] at h
      cases h
    | ok n =>
      simp only [hn] at h
      cases h
      rfl

theorem canonical_integer {text : String} (hcanonical : CanonicalId text false) {n : Int}
    (hn : stoll text = .ok n) : text = toString n := by
  obtain ⟨value, hvalue⟩ := hcanonical
  cases value with
  | integer k =>
    have htext : text = toString (wrap 64 k) := congrArg Prod.fst hvalue
    rw [htext, stoll_toString (inRange_wrap k)] at hn
    cases hn
    exact htext
  | string s => exact Bool.noConfusion (congrArg Prod.snd hvalue)
  | null | boolean b | float p w | array l | object l =>
    have htext : text = "" := congrArg Prod.fst hvalue
    rw [htext] at hn
    cases hn

theorem setGid_lookup (hkey : key.Canonical)
    (hset : ids.setGid key.oid key.isStringOid key.vlabel gid = .ok ids') {other : VertexKey}
    (hother : other.Canonical) :
    ids'.lookup other = if other = key then some gid else ids.lookup other := by
  obtain ⟨l, oid, isString⟩ := key
  obtain ⟨l', oid', isString'⟩ := other
  unfold IdMaps.setGid at hset
  unfold IdMaps.lookup
  cases isString with
  | true =>
    cases hset
    cases isString' with
    | true => simp only [VertexKey.mk.injEq, and_true]
    | false =>
      simp only [VertexKey.mk.injEq, Bool.false_eq_true, and_false, if_false]
  | false =>
    dsimp only at hset
    cases hn : stoll oid with
    | error f =>
      simp only [hn] at hset
      cases hset
    | ok n =>
      simp only [hn] at hset
      cases hset
      cases isString' with
      | true => simp only [VertexKey.mk.injEq, Bool.true_eq_false, and_false, if_false]
      | false =>
        dsimp only
        cases hn' : stoll oid' with
        | error f =>
          have hne : oid' ≠ oid := by
            intro heq
            rw [heq, hn] at hn'
            cases hn'
          simp [hne]
        | ok n' =>
          have hiff : n' = n ↔ oid' = oid := by
            constructor
            · intro heq
              have htext : oid = toString n := canonical_integer hkey hn
              have htext' : oid' = toString n' := canonical_integer hother hn'
              rw [htext, htext', heq]
            · intro heq
              rw [heq, hn] at hn'
              cases hn'
              rfl
          simp only [VertexKey.mk.injEq, and_true, hiff]

end maps

/-! ### One entry -/

structure Unresolved (e : LogEntry) : Prop where
  vertex : e.vertexKey.Canonical
  src : e.srcKey.Canonical
  dst : e.dstKey.Canonical
  gids : SameGids {} e
  op : e.opType ≠ .bulkloadEnd ∧ e.opType ≠ .unknown

def LogEntry.HasGids (e : LogEntry) : Prop :=
  e.opType = .bulkloadEnd ∨
    match e.entityType with
    | .vertex => e.vertexGid ≠ none
    | .edge => e.srcGid ≠ none ∧ e.dstGid ≠ none

/-- What the maps, the messages and the entries taken so far have to do with each other. -/
structure RefInv (taken : List LogEntry) (st : Step2) : Prop where
  sound : ∀ key : VertexKey, key.Canonical → ∀ gid, st.ids.lookup key = some gid →
    gid ≠ -1 ∧ AssignedIn st.emitted key gid
  complete : ∀ key : VertexKey, key.Canonical → InsertedIn taken key → st.ids.lookup key ≠ none
  inserted : ∀ key gid, AssignedIn st.emitted key gid → InsertedIn taken key
  refs : Referential st.emitted ↔ Resolvable taken
  gids : (∀ m ∈ st.emitted, m.entry.HasGids) ↔ Referential st.emitted

section entry
variable {cfg : Config} {st : Step2} {e : LogEntry} {taken : List LogEntry} {key : VertexKey}

theorem RefInv.getGid (h : RefInv taken st) (hkey : key.Canonical) {gid : Int}
    (hgid : st.ids.getGid key.oid key.isStringOid key.vlabel = .ok gid) :
    (gid = -1 ∧ ¬InsertedIn taken key) ∨
      (gid ≠ -1 ∧ InsertedIn taken key ∧ AssignedIn st.emitted key gid) := by
  have hlookup := getGid_lookup hgid
  cases hl : st.ids.lookup key with
  | none =>
    rw [hl] at hlookup
    exact .inl ⟨hlookup, fun hin => h.complete key hkey hin hl⟩
  | some g =>
    rw [hl] at hlookup
    have hg : gid = g := hlookup
    rw [hg]
    obtain ⟨hne, hassigned⟩ := h.sound key hkey g hl
    exact .inr ⟨hne, h.inserted key g hassigned, hassigned⟩

theorem refers_vertex {earlier : List Message} (h : e.refersToVertex) :
    Refers earlier e ↔ ∃ gid, e.vertexGid = some gid ∧ AssignedIn earlier e.vertexKey gid := by
  unfold Refers
  rcases h with ⟨hentity, hop | hop⟩ <;> rw [hentity, hop]

theorem refers_edge {earlier : List Message} (h : e.entityType = .edge) :
    Refers earlier e ↔ ∃ src dst, e.srcGid = some src ∧ e.dstGid = some dst ∧
      AssignedIn earlier e.srcKey src ∧ AssignedIn earlier e.dstKey dst := by
  unfold Refers
  rw [h]

theorem refers_other {earlier : List Message} (h : e.entityType = .vertex)
    (hop : ¬e.refersToVertex) : Refers earlier e := by
  unfold Refers
  rw [h]
  cases hkind : e.opType with
  | delete => exact absurd ⟨h, .inl hkind⟩ hop
  | update => exact absurd ⟨h, .inr hkind⟩ hop
  | insert | bulkloadEnd | unknown => trivial

theorem references_vertex (h : e.refersToVertex) : e.references = [e.vertexKey] := by
  unfold LogEntry.references
  rcases h with ⟨hentity, hop | hop⟩ <;> rw [hentity, hop]

theorem references_edge (h : e.entityType = .edge) : e.references = [e.srcKey, e.dstKey] := by
  unfold LogEntry.references
  rw [h]

theorem references_other (h : e.entityType = .vertex) (hop : ¬e.refersToVertex) :
    e.references = [] := by
  unfold LogEntry.references
  rw [h]
  cases hkind : e.opType with
  | delete => exact absurd ⟨h, .inl hkind⟩ hop
  | update => exact absurd ⟨h, .inr hkind⟩ hop
  | insert | bulkloadEnd | unknown => rfl

/-- The message of a resolved entry refers to earlier messages exactly when the entry refers to
earlier entries. -/
theorem resolved_refers (h : RefInv taken st) (hids : Unresolved e) {ids' : IdMaps}
    {out : LogEntry} (hout : Resolved cfg.parser st.ids e ids' out) :
    Refers st.emitted out ↔ ∀ key ∈ e.references, InsertedIn taken key := by
  cases hout with
  | assigned hins _ =>
    have hkind : ¬e.refersToVertex := fun hrefers => not_insertsVertex_of_refers hrefers hins
    rw [references_other hins.1 hkind]
    exact ⟨fun _ key hkey => (List.not_mem_nil hkey).elim, fun _ => refers_other hins.1 hkind⟩
  | other hentity hop =>
    have hkind : ¬e.refersToVertex := by
      intro hrefers
      rcases hrefers.2 with hop' | hop' <;> rw [hop'] at hop <;> simp at hop
    rw [references_other hentity hkind]
    exact ⟨fun _ key hkey => (List.not_mem_nil hkey).elim, fun _ => refers_other hentity hkind⟩
  | @vertex gid hkind hgid hget =>
    rw [references_vertex hkind, @refers_vertex { e with vertexGid := some gid } _ hkind]
    obtain ⟨hbad, -⟩ | ⟨-, hin, hassigned⟩ := h.getGid hids.vertex hget
    · exact absurd hbad hgid
    · constructor
      · intro _ key hkey
        rw [List.mem_singleton.mp hkey]
        exact hin
      · exact fun _ => ⟨gid, rfl, hassigned⟩
  | unknownVertex hkind hget =>
    rw [references_vertex hkind, @refers_vertex { e with complete := false } _ hkind]
    obtain ⟨-, hnot⟩ | ⟨hbad, -⟩ := h.getGid hids.vertex hget
    · constructor
      · rintro ⟨gid, -, hassigned⟩
        exact absurd (h.inserted _ gid hassigned) hnot
      · exact fun hall => absurd (hall _ List.mem_cons_self) hnot
    · exact absurd rfl hbad
  | @edge src dst hentity hsrc hdst hgetSrc hgetDst =>
    rw [references_edge hentity,
      @refers_edge { e with srcGid := some src, dstGid := some dst } _ hentity]
    obtain ⟨hbad, -⟩ | ⟨-, hinSrc, hassignedSrc⟩ := h.getGid hids.src hgetSrc
    · exact absurd hbad hsrc
    · obtain ⟨hbad, -⟩ | ⟨-, hinDst, hassignedDst⟩ := h.getGid hids.dst hgetDst
      · exact absurd hbad hdst
      · constructor
        · intro _ key hkey
          rcases List.mem_cons.mp hkey with rfl | hkey
          · exact hinSrc
          · rw [List.mem_singleton.mp hkey]
            exact hinDst
        · exact fun _ => ⟨src, dst, rfl, rfl, hassignedSrc, hassignedDst⟩
  | @unknownEdge src dst hentity hnone hgetSrc hgetDst =>
    rw [references_edge hentity, @refers_edge { e with complete := false } _ hentity]
    have hnot : ¬InsertedIn taken e.srcKey ∨ ¬InsertedIn taken e.dstKey := by
      rcases hnone with hnone | hnone
      · obtain ⟨-, hnot⟩ | ⟨hbad, -⟩ := h.getGid hids.src hgetSrc
        · exact .inl hnot
        · exact absurd hnone hbad
      · obtain ⟨-, hnot⟩ | ⟨hbad, -⟩ := h.getGid hids.dst hgetDst
        · exact .inr hnot
        · exact absurd hnone hbad
    constructor
    · rintro ⟨s, d, -, -, hs, hd⟩
      rcases hnot with hnot | hnot
      · exact absurd (h.inserted _ s hs) hnot
      · exact absurd (h.inserted _ d hd) hnot
    · intro hall
      rcases hnot with hnot | hnot
      · exact absurd (hall _ List.mem_cons_self) hnot
      · exact absurd (hall _ (List.mem_cons_of_mem _ List.mem_cons_self)) hnot

theorem hasGids_vertex (h : e.refersToVertex) : e.HasGids ↔ e.vertexGid ≠ none := by
  unfold LogEntry.HasGids
  obtain ⟨hentity, hop | hop⟩ := h <;> simp [hentity, hop]

theorem hasGids_edge (h : e.entityType = .edge) (hop : e.opType ≠ .bulkloadEnd) :
    e.HasGids ↔ e.srcGid ≠ none ∧ e.dstGid ≠ none := by
  unfold LogEntry.HasGids
  simp [h, hop]

theorem resolved_hasGids (h : RefInv taken st) (hnew : Unresolved e) {ids' : IdMaps}
    {out : LogEntry} (hout : Resolved cfg.parser st.ids e ids' out) :
    out.HasGids ↔ Refers st.emitted out := by
  have hrefers := resolved_refers h hnew hout
  have hcontent := hout.content.1
  cases hout with
  | assigned hins _ =>
    have hkind : ¬e.refersToVertex := fun hrefers => not_insertsVertex_of_refers hrefers hins
    refine ⟨fun _ => refers_other hins.1 hkind, fun _ => .inr ?_⟩
    simp [hins.1]
  | other hentity hop => exact absurd hop (not_or.mpr hnew.op)
  | @vertex gid hkind hgid hget =>
    obtain ⟨hbad, -⟩ | ⟨-, hin, -⟩ := h.getGid hnew.vertex hget
    · exact absurd hbad hgid
    · rw [@hasGids_vertex { e with vertexGid := some gid } hkind, hrefers, references_vertex hkind]
      simp [hin]
  | unknownVertex hkind hget =>
    rw [@hasGids_vertex { e with complete := false } hkind,
      @refers_vertex { e with complete := false } _ hkind]
    simp [hnew.gids.vertexGid]
  | @edge src dst hentity hsrc hdst hgetSrc hgetDst =>
    obtain ⟨hbad, -⟩ | ⟨-, hinSrc, -⟩ := h.getGid hnew.src hgetSrc
    · exact absurd hbad hsrc
    · obtain ⟨hbad, -⟩ | ⟨-, hinDst, -⟩ := h.getGid hnew.dst hgetDst
      · exact absurd hbad hdst
      · rw [@hasGids_edge { e with srcGid := some src, dstGid := some dst } hentity hnew.op.1, hrefers,
          references_edge hentity]
        simp [hinSrc, hinDst]
  | unknownEdge hentity =>
    rw [@hasGids_edge { e with complete := false } hentity hnew.op.1,
      @refers_edge { e with complete := false } _ hentity]
    simp [hnew.gids.srcGid]

theorem resolved_lookup (hids : Unresolved e) {ids' : IdMaps} {out : LogEntry}
    (hout : Resolved cfg.parser st.ids e ids' out) (hkey : key.Canonical) :
    ids'.lookup key =
      if e.insertsVertex ∧ key = e.vertexKey then some (nextGid cfg.parser st.ids e.vlabel)
      else st.ids.lookup key := by
  cases hout with
  | assigned hins hset =>
    have hlookup : ids'.lookup key = if key = e.vertexKey then
        some (nextGid cfg.parser st.ids e.vlabel) else st.ids.lookup key :=
      @setGid_lookup (st.ids.countVertex e.vlabel _) ids' e.vertexKey _ hids.vertex hset key hkey
    rw [hlookup]
    simp only [hins, true_and]
  | other hentity hop =>
    rw [if_neg]
    rintro ⟨hins, -⟩
    rcases hop with hop | hop <;> rw [hins.2] at hop <;> cases hop
  | vertex hkind => rw [if_neg fun h => not_insertsVertex_of_refers hkind h.1]
  | unknownVertex hkind => rw [if_neg fun h => not_insertsVertex_of_refers hkind h.1]
  | edge hentity => rw [if_neg fun h => not_insertsVertex_of_edge hentity h.1]
  | unknownEdge hentity => rw [if_neg fun h => not_insertsVertex_of_edge hentity h.1]

theorem resolved_assigned {ids' : IdMaps} {out : LogEntry}
    (hout : Resolved cfg.parser st.ids e ids' out) (gid : Int) :
    (out.insertsVertex ∧ out.vertexKey = key ∧ out.vertexGid = some gid) ↔
      e.insertsVertex ∧ e.vertexKey = key ∧ (e.insertsVertex → out.vertexGid = some gid) := by
  have hcontent := hout.content.1
  have hins : out.insertsVertex ↔ e.insertsVertex := by
    unfold LogEntry.insertsVertex
    rw [hcontent.entityType, hcontent.opType]
  have hkeys : out.vertexKey = e.vertexKey := by
    unfold LogEntry.vertexKey
    rw [hcontent.vlabel, hcontent.externalId, hcontent.isStringOid]
  rw [hins, hkeys]
  constructor
  · exact fun ⟨h1, h2, h3⟩ => ⟨h1, h2, fun _ => h3⟩
  · exact fun ⟨h1, h2, h3⟩ => ⟨h1, h2, h3 h1⟩

theorem resolved_gid {ids' : IdMaps} {out : LogEntry} (hout : Resolved cfg.parser st.ids e ids' out)
    (hins : e.insertsVertex) : out.vertexGid = some (nextGid cfg.parser st.ids e.vlabel) := by
  cases hout with
  | assigned => rfl
  | other hentity hop => rcases hop with hop | hop <;> rw [hins.2] at hop <;> cases hop
  | vertex hkind => exact absurd hins (not_insertsVertex_of_refers hkind)
  | unknownVertex hkind => exact absurd hins (not_insertsVertex_of_refers hkind)
  | edge hentity => exact absurd hins (not_insertsVertex_of_edge hentity)
  | unknownEdge hentity => exact absurd hins (not_insertsVertex_of_edge hentity)

theorem nextGid_ne (cfg : ParserConfig) (ids : IdMaps) (vlabel : Int) :
    nextGid cfg ids vlabel ≠ -1 := by
  unfold nextGid
  dsimp only
  omega

theorem resolved_refInv (h : RefInv taken st) (hids : Unresolved e) {ids' : IdMaps}
    {out : LogEntry} (hout : Resolved cfg.parser st.ids e ids' out) {st' : Step2} {offset : Nat}
    (hst : st'.ids = ids') (hemitted : st'.emitted = st.emitted ++ [⟨out, offset⟩]) :
    RefInv (taken ++ [e]) st' := by
  have hassigned : ∀ key gid, AssignedIn st'.emitted key gid ↔ AssignedIn st.emitted key gid ∨
      (e.insertsVertex ∧ e.vertexKey = key ∧ gid = nextGid cfg.parser st.ids e.vlabel) := by
    intro key gid
    rw [hemitted, assigned_append, resolved_assigned hout gid]
    apply or_congr Iff.rfl
    constructor
    · rintro ⟨hins, hk, hg⟩
      have hgid := hg hins
      rw [resolved_gid hout hins] at hgid
      exact ⟨hins, hk, (Option.some.inj hgid).symm⟩
    · rintro ⟨hins, hk, rfl⟩
      exact ⟨hins, hk, fun _ => resolved_gid hout hins⟩
  refine ⟨?_, ?_, ?_, ?_, ?_⟩
  · intro key hkey gid hlookup
    rw [hst, resolved_lookup hids hout hkey] at hlookup
    split at hlookup
    · rename_i hins
      cases hlookup
      exact ⟨nextGid_ne _ _ _, (hassigned _ _).mpr (.inr ⟨hins.1, hins.2.symm, rfl⟩)⟩
    · obtain ⟨hne, hold⟩ := h.sound key hkey gid hlookup
      exact ⟨hne, (hassigned _ _).mpr (.inl hold)⟩
  · intro key hkey hin
    rw [hst, resolved_lookup hids hout hkey]
    split
    · simp
    · rename_i hnot
      rcases inserted_append.mp hin with hold | ⟨hins, hk⟩
      · exact h.complete key hkey hold
      · exact absurd ⟨hins, hk.symm⟩ hnot
  · intro key gid hgid
    rcases (hassigned key gid).mp hgid with hold | ⟨hins, hk, -⟩
    · exact (h.inserted key gid hold).append _
    · exact inserted_append.mpr (.inr ⟨hins, hk⟩)
  · rw [hemitted, referential_append, resolvable_append, h.refs, resolved_refers h hids hout]
  · rw [hemitted, referential_append, ← h.gids, ← resolved_hasGids h hids hout]
    simp [or_imp, forall_and]

end entry

/-! ### Runs -/

section run
variable {cfg : Config} {start : Int} {st : Step2} {taken es : List LogEntry} {e : LogEntry}

theorem takeEntry_refInv (hzero : cfg.lastProcessedOffset = 0) (hpaced : Paced cfg st)
    (h : RefInv taken st) (hids : Unresolved e) :
    RefInv taken (takeEntry cfg st e) ∧ (takeEntry cfg st e).fault ≠ none ∨
      RefInv (taken ++ [e]) (takeEntry cfg st e) := by
  have hsilent : st.silent cfg = false := by
    rw [silent_eq hpaced, hzero]
    exact decide_eq_false (Nat.not_lt_zero _)
  by_cases hfault : st.fault = none
  · unfold takeEntry
    rw [if_neg (by simp [hfault])]
    dsimp only
    rw [hsilent]
    cases hagain : parseAgain cfg.parser st.ids e st.epoch with
    | error f => exact .inl ⟨⟨h.sound, h.complete, h.inserted, h.refs, h.gids⟩, by simp⟩
    | ok r =>
      right
      have hout : Resolved cfg.parser st.ids { e with epoch := st.epoch } r.1 r.2 :=
        resolve_spec.of_ok hagain
      have hids' : Unresolved { e with epoch := st.epoch } := ⟨hids.vertex, hids.src, hids.dst,
        ⟨hids.gids.vertexGid, hids.gids.srcGid, hids.gids.dstGid⟩, hids.op⟩
      have hinv := @resolved_refInv cfg st _ taken h hids' r.1 r.2 hout
        { st with ids := r.1, emitted := st.emitted ++ [⟨r.2, st.processedCount + 1⟩] }
        (st.processedCount + 1) rfl rfl
      -- the epoch of an entry does not matter for what it inserts and refers to
      have hiff : ∀ key, InsertedIn (taken ++ [{ e with epoch := st.epoch }]) key ↔
          InsertedIn (taken ++ [e]) key := by
        intro key
        rw [inserted_append, inserted_append]
        exact Iff.rfl
      have hres : Resolvable (taken ++ [{ e with epoch := st.epoch }]) ↔
          Resolvable (taken ++ [e]) := by
        rw [resolvable_append, resolvable_append]
        exact Iff.rfl
      exact ⟨hinv.sound, fun key hkey hin => hinv.complete key hkey ((hiff key).mpr hin),
        fun key gid hgid => (hiff key).mp (hinv.inserted key gid hgid), hinv.refs.trans hres,
        hinv.gids⟩
  · have hsame : takeEntry cfg st e = st := by
      unfold takeEntry
      rw [if_pos (Option.isSome_iff_ne_none.mpr hfault)]
    rw [hsame]
    exact .inl ⟨h, hfault⟩

theorem takeEntries_refInv (hzero : cfg.lastProcessedOffset = 0) (hpaced : Paced cfg st)
    (h : RefInv taken st) (hids : ∀ e ∈ es, Unresolved e) : ∃ done left, es = done ++ left ∧
      RefInv (taken ++ done) (takeEntries cfg st es) ∧
      ((takeEntries cfg st es).fault = none → left = []) := by
  induction es generalizing st taken with
  | nil => exact ⟨[], [], rfl, by simpa [takeEntries] using h, fun _ => rfl⟩
  | cons e rest ih =>
    have hpaced' := (@takeEntry_paced cfg st e hpaced).1
    rcases takeEntry_refInv hzero hpaced h (hids e List.mem_cons_self) with ⟨hinv, hfault⟩ | hinv
    · -- nothing is taken after a fault
      have hstay : ∀ (l : List LogEntry) (s : Step2), s.fault ≠ none → takeEntries cfg s l = s := by
        intro l
        induction l with
        | nil => exact fun s _ => rfl
        | cons x l ih =>
          intro s hs
          have hsame : takeEntry cfg s x = s := by
            unfold takeEntry
            rw [if_pos (Option.isSome_iff_ne_none.mpr hs)]
          show takeEntries cfg (takeEntry cfg s x) l = s
          rw [hsame]
          exact ih s hs
      refine ⟨[], e :: rest, rfl, ?_, fun hnone => ?_⟩
      · show RefInv (taken ++ []) (takeEntries cfg (takeEntry cfg st e) rest)
        rw [hstay rest _ hfault, List.append_nil]
        exact hinv
      · exfalso
        apply hfault
        have heq : takeEntries cfg st (e :: rest) = takeEntry cfg st e := hstay rest _ hfault
        rw [← heq]
        exact hnone
    · obtain ⟨done, left, rfl, hrest, hnil⟩ :=
        ih hpaced' hinv fun x hx => hids x (List.mem_cons_of_mem _ hx)
      refine ⟨e :: done, left, rfl, ?_, hnil⟩
      have happ : taken ++ e :: done = taken ++ [e] ++ done := by simp
      rw [happ]
      exact hrest

theorem finishEvent_refInv {clock : Clock} (h : RefInv taken st) :
    RefInv taken (finishEvent cfg clock e st) := by
  have hids : ∀ s : Step2, (finishEvent cfg clock e s).ids = s.ids := by
    intro s
    unfold finishEvent
    split
    · rfl
    · dsimp only
      split
      · exact moveEpoch_sameOutput.ids
      · split
        · exact moveEpoch_sameOutput.ids
        · exact moveEpoch_sameOutput.ids
  have hmark : ∀ offset key gid,
      AssignedIn (st.emitted ++ [⟨LogEntry.bulkLoadEnd, offset⟩]) key gid →
        AssignedIn st.emitted key gid := by
    intro offset key gid hgid
    rcases assigned_append.mp hgid with hold | ⟨⟨-, hop⟩, -⟩
    · exact hold
    · cases hop
  rcases @finishEvent_emits cfg st e clock with hsame | ⟨-, offset, hend⟩
  · refine ⟨?_, ?_, ?_, ?_, ?_⟩
    · rw [hids, hsame]
      exact h.sound
    · rw [hids]
      exact h.complete
    · rw [hsame]
      exact h.inserted
    · rw [hsame]
      exact h.refs
    · rw [hsame]
      exact h.gids
  · refine ⟨?_, ?_, ?_, ?_, ?_⟩
    · rw [hids, hend]
      intro key hkey gid hgid
      obtain ⟨hne, hassigned⟩ := h.sound key hkey gid hgid
      exact ⟨hne, hassigned.append _⟩
    · rw [hids]
      exact h.complete
    · rw [hend]
      exact fun key gid hgid => h.inserted key gid (hmark offset key gid hgid)
    · rw [hend, referential_append, h.refs]
      exact ⟨fun hr => hr.1, fun hr => ⟨hr, trivial⟩⟩
    · have hmarkRefers : Refers st.emitted LogEntry.bulkLoadEnd := trivial
      have hmarkGids : LogEntry.bulkLoadEnd.HasGids := .inl rfl
      rw [hend, referential_append, ← h.gids]
      simp [or_imp, forall_and, hmarkRefers, hmarkGids]

theorem unresolved_of_step1 {event : Event} (hes : processBinlogStep1 cfg.parser event.1 = .ok es) :
    ∀ e ∈ es, Unresolved e := by
  intro e he
  obtain ⟨log, h, hline, hheader⟩ := step1_header hes (List.ne_nil_of_mem he)
  rw [hline] at hes
  obtain ⟨slot, hslot, hfilled, -⟩ := step1_filled hheader hes e he
  refine ⟨hfilled.vertexId, hfilled.srcId, hfilled.dstId, step1_gids hes e he, ?_⟩
  rw [hfilled.op]
  exact slots_op hheader hslot

theorem entriesOf_append (events : List Event) (event : Event) :
    entriesOf cfg (events ++ [event]) = entriesOf cfg events ++ entriesOf cfg [event] := by
  simp [entriesOf]

theorem entriesOf_singleton {event : Event} (hes : processBinlogStep1 cfg.parser event.1 = .ok es) :
    entriesOf cfg [event] = es := by
  simp [entriesOf, hes]

/-- The entries of the events up to now that have been taken, all of them unless an exception
ended the process. -/
def RunRefInv (cfg : Config) (past : List Event) (st : Step2) : Prop :=
  ∃ taken left, entriesOf cfg past = taken ++ left ∧ RefInv taken st ∧
    (st.fault = none → left = [])

theorem run_refInv (hzero : cfg.lastProcessedOffset = 0) (start : Int) (events : List Event) :
    RunRefInv cfg events (run cfg start events) := by
  apply @run_invariant cfg start events fun past st => RunRefInv cfg past st
  · refine ⟨[], [], rfl, ⟨?_, ?_, ?_, ?_, ?_⟩, fun _ => rfl⟩
    · intro key _ gid hgid
      unfold IdMaps.lookup at hgid
      split at hgid
      · cases hgid
      · split at hgid <;> cases hgid
    · rintro key _ ⟨e, he, -⟩
      cases he
    · rintro key gid ⟨m, hm, -⟩
      cases hm
    · constructor
      · intro _ earlier e later hsplit
        exact absurd (congrArg List.length hsplit) (by simp)
      · intro _ earlier m later hsplit
        exact absurd (congrArg List.length hsplit) (by simp)
    · refine ⟨fun _ earlier m later hsplit => ?_, fun _ m hm => (List.not_mem_nil hm).elim⟩
      exact absurd (congrArg List.length hsplit) (by simp)
  · intro before event after _ h
    have hpaced := run_paced cfg start before
    rw [run_append]
    generalize run cfg start before = st at h hpaced ⊢
    obtain ⟨taken, left, hentries, hinv, hleft⟩ := h
    by_cases hfault : st.fault = none
    · have hnil := hleft hfault
      subst hnil
      rw [List.append_nil] at hentries
      unfold RunRefInv
      rw [entriesOf_append, hentries]
      rcases @step_cases cfg st event hfault with ⟨f, hstep⟩ | ⟨hes, hstep⟩ | ⟨es, e, hes, hstep⟩
      · rw [hstep]
        exact ⟨taken, _, rfl, ⟨hinv.sound, hinv.complete, hinv.inserted, hinv.refs, hinv.gids⟩,
          fun hnone => by cases hnone⟩
      · rw [hstep, entriesOf_singleton hes]
        exact ⟨taken, [], rfl, hinv, fun _ => rfl⟩
      · rw [hstep, entriesOf_singleton hes.1]
        have hcounted : Paced cfg st.counted := ⟨hpaced.mode, hpaced.length_le, hpaced.length_eq⟩
        have hinv' : RefInv taken st.counted := ⟨hinv.sound, hinv.complete, hinv.inserted, hinv.refs, hinv.gids⟩
        obtain ⟨done, left, rfl, hdone, hrest⟩ :=
          takeEntries_refInv hzero hcounted hinv' (unresolved_of_step1 hes.1)
        have hpacedTaken := (@takeEntries_paced cfg st.counted (done ++ left) hcounted).1
        refine ⟨taken ++ done, left, by simp, finishEvent_refInv hdone, fun hnone => ?_⟩
        exact hrest ((@finishEvent_paced cfg _ e event.2 hpacedTaken).2.2 hnone)
    · rw [step_of_fault hfault]
      refine ⟨taken, left ++ entriesOf cfg [event], ?_, hinv, fun hnone => absurd hnone hfault⟩
      rw [entriesOf_append, hentries, List.append_assoc]

theorem messages_hasGids (start : Int) (events : List Event) :
    (∀ m ∈ (run cfg.fresh start events).emitted, m.entry.HasGids) ↔
      Referential (run cfg.fresh start events).emitted := by
  obtain ⟨taken, left, -, hinv, -⟩ := @run_refInv cfg.fresh rfl start events
  exact hinv.gids

/-- The messages of a run refer to vertices inserted by earlier messages exactly when the entries
of its events do; of a run that an exception ends, the condition is enough. A resumed run writes
the messages beyond its offset. -/
theorem messages_referential (cfg : Config) (start : Int) (events : List Event) :
    (Resolvable (entriesOf cfg events) → Referential (run cfg.fresh start events).emitted) ∧
      ((run cfg.fresh start events).fault = none →
        (Referential (run cfg.fresh start events).emitted ↔ Resolvable (entriesOf cfg events))) ∧
      (run cfg start events).emitted =
        (run cfg.fresh start events).emitted.drop cfg.lastProcessedOffset := by
  obtain ⟨taken, left, hentries, hinv, hleft⟩ := @run_refInv cfg.fresh rfl start events
  have hsame : entriesOf cfg events = taken ++ left := hentries
  rw [hsame]
  refine ⟨fun hres => hinv.refs.mpr hres.of_append, fun hok => ?_, resumed_emitted cfg start events⟩
  rw [hleft hok, List.append_nil]
  exact hinv.refs

end run

/-- An edge whose endpoints were never inserted is written all the same, without gids. -/
theorem edge_written_unresolved :
    ¬Referential (run (personConfig {}) 0 (atOnce
      [rowChange "knows" "c" "false" (some 7) [("src", .integer 1), ("dst", .integer 2)]])).emitted := by
  have hone : ∃ m, (run (personConfig {}) 0 (atOnce
      [rowChange "knows" "c" "false" (some 7)
        [("src", .integer 1), ("dst", .integer 2)]])).emitted = [m] ∧
      m.entry.entityType = .edge ∧ m.entry.srcGid = none := ⟨_, rfl, rfl, rfl⟩
  obtain ⟨m, hm, hedge, hnone⟩ := hone
  rw [hm]
  intro h
  obtain ⟨src, dst, hsrc, -⟩ := (refers_edge hedge).mp (h [] m [] rfl)
  rw [hnone] at hsrc
  cases hsrc

end Gart.Converter
