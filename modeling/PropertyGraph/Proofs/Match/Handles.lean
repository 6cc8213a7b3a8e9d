import PropertyGraph.Proofs.Graph.Handles
import PropertyGraph.Proofs.Match.Stopping
import PropertyGraph.Proofs.Match.Suiting

namespace PropertyGraph

def BoundValue.handles : BoundValue → List Handle
  | .node id => [.node id]
  | .edges ids => ids.map .edge

def Row.handles (row : Row) : List Handle :=
  (row.path ++ row.bindings.entries.map Prod.snd).flatMap BoundValue.handles

structure Row.Live (g : Graph) (row : Row) : Prop where
  path : ∀ v ∈ row.path, v.Live g
  bindings : ∀ n v, row.bindings.get? n = some v → v.Live g

section Rows

variable {g : Graph} {scope : Scope}

theorem BoundValue.Live.has {v : BoundValue} (live : v.Live g) {handle : Handle}
    (mem : handle ∈ v.handles) : g.store.has handle = true := by
  cases v with
  | node id =>
      cases List.mem_singleton.mp mem
      exact Option.isSome_iff_exists.mpr live
  | edges ids =>
      obtain ⟨id, listed, rfl⟩ := List.mem_map.mp mem
      exact Option.isSome_iff_exists.mpr (live id listed)

theorem Row.Live.has {row : Row} (live : row.Live g) {handle : Handle} (mem : handle ∈ row.handles) :
    g.store.has handle = true := by
  obtain ⟨v, there, mem⟩ := List.mem_flatMap.mp mem
  rcases List.mem_append.mp there with there | there
  · exact (live.path v there).has mem
  · obtain ⟨⟨n, w⟩, entry, rfl⟩ := List.mem_map.mp there
    exact (live.bindings n w (InsertionMap.mem_entries.mp entry)).has mem

theorem Row.live_empty (g : Graph) : Row.empty.Live g where
  path := fun v mem => by cases mem
  bindings := fun n v held => by cases held

theorem Row.Live.join {a b : Row} (first : a.Live g) (second : b.Live g) : (a.join b).Live g where
  path := fun v mem => (List.mem_append.mp mem).elim (first.path v) (second.path v)
  bindings := fun n v held => by
    rw [Row.join, InsertionMap.get?_union, Option.or_eq_some_iff] at held
    rcases held with held | ⟨-, held⟩
    · exact second.bindings n v held
    · exact first.bindings n v held

structure Context.Live (g : Graph) (ctx : Context) : Prop where
  slots : ∀ slot, some slot ∈ ctx.path → slot.value.Live g
  bindings : ∀ n v, ctx.bindings.get? n = some v → v.Live g

theorem Context.live_empty (g : Graph) (length : Nat) : (Context.empty length).Live g where
  slots := fun slot mem => by cases List.eq_of_mem_replicate mem
  bindings := fun n v held => by cases held

theorem Context.Live.fill {ctx filled : Context} (live : ctx.Live g) {position : Nat}
    {name : Option String} {slot : Slot} (slot_live : slot.value.Live g)
    (mem : .ok filled ∈ ctx.fill scope position name slot) : filled.Live g where
  slots := fun other there => by
    rw [path_of_mem_fill mem] at there
    rcases List.mem_or_eq_of_mem_set there with there | same
    · exact live.slots other there
    · cases same
      exact slot_live
  bindings := fun n v held => by
    rcases ((of_mem_fill mem).2 n v).mp held with held | ⟨-, -, rfl⟩
    · exact live.bindings n v held
    · exact slot_live

theorem Context.Live.of_mem_contexts {tasks : List Task} {ctx final : Context} (live : ctx.Live g)
    (mem : .ok final ∈ contexts g scope (tasks.map Task.operator) ctx) : final.Live g := by
  induction tasks generalizing ctx with
  | nil =>
      cases List.mem_singleton.mp mem
      exact live
  | cons task rest ih =>
      rw [contexts_cons] at mem
      obtain ⟨slot, found, mem⟩ := Findings.ok_mem_andThen.mp mem
      obtain ⟨filled, filled_mem, mem⟩ := Findings.ok_mem_andThen.mp mem
      exact ih (live.fill (Task.suits_of_mem_slots found).live filled_mem) mem

theorem Context.Live.rowOf {ctx : Context} (live : ctx.Live g) (p : PathPattern) :
    (p.rowOf ctx).Live g where
  path := fun v mem => by
    obtain ⟨slot, there, rfl⟩ := List.mem_map.mp mem
    obtain ⟨item, listed, eq⟩ := List.mem_filterMap.mp there
    exact live.slots slot (eq ▸ listed)
  bindings := fun n v held => live.bindings n v (ctx.get?_rowBindings.mp held).2

namespace PathPattern

theorem live_of_mem_rows {p : PathPattern} {pivot : Option Nat} {row : Row}
    (mem : .ok row ∈ p.rows g scope pivot) : row.Live g := by
  obtain ⟨start, tasks, final, -, -, there, rfl⟩ := exists_context_of_mem_rows mem
  exact ((Context.live_empty g p.length).of_mem_contexts there).rowOf p

end PathPattern

namespace Clause

theorem live_of_mem_rowsFrom {symbols : Symbols} {parts : List PathPattern} {row found : Row}
    (live : row.Live g) (mem : .ok found ∈ rowsFrom g symbols parts row) : found.Live g := by
  induction parts generalizing row with
  | nil =>
      cases List.mem_singleton.mp mem
      exact live
  | cons part rest ih =>
      obtain ⟨next, there, mem⟩ := Findings.ok_mem_andThen.mp mem
      exact ih (live.join (PathPattern.live_of_mem_rows there)) mem

theorem live_of_mem_rows {symbols : Symbols} {clause : Clause} {row : Row}
    (mem : .ok row ∈ clause.rows g symbols) : row.Live g := by
  rw [rows] at mem
  split at mem
  · cases List.mem_singleton.mp mem
  · exact live_of_mem_rowsFrom (Row.live_empty g) mem

end Clause

section Calls

variable {σ : Type} {collector : Collector σ} {state : σ} {options : MatchOptions} {row : Row}
  {symbols : Symbols}

theorem PathPattern.live_of_call {p : PathPattern}
    (called : row ∈ (p.run g symbols options collector.traced ([], state)).1.1) : row.Live g :=
  live_of_mem_rows (ok_mem_of_call called)

theorem Clause.live_of_call {clause : Clause}
    (called : row ∈ (clause.run g symbols options collector.traced ([], state)).1.1) :
    row.Live g := by
  rcases Decidable.em (options.limit = some 0) with nothing | positive
  · rw [run] at called
    split at called
    · cases called
    · cases called
  · rw [clause.run_eq_rows_run g symbols options positive] at called
    exact live_of_mem_rows (Findings.ok_mem_of_call positive called)

end Calls

end Rows

namespace Graph

/-- What can be read hands out the handle: a listing, a lookup, or a row of a run of a pattern or a
clause, whatever its symbols, options and collector are. -/
inductive Mentions (g : Graph) : Handle → Prop
  | nodeIds {id : NodeId} (listed : id ∈ g.store.nodeIds) : g.Mentions (.node id)
  | edgeIds {id : EdgeId} (listed : id ∈ g.store.edgeIds) : g.Mentions (.edge id)
  | outgoing {node : NodeId} {id : EdgeId} (listed : id ∈ g.store.outgoing node) :
      g.Mentions (.edge id)
  | incoming {node : NodeId} {id : EdgeId} (listed : id ∈ g.store.incoming node) :
      g.Mentions (.edge id)
  | outgoingOf {node : NodeId} {type : EdgeType} {id : EdgeId}
      (listed : id ∈ g.store.outgoingOf node type) : g.Mentions (.edge id)
  | incomingOf {node : NodeId} {type : EdgeType} {id : EdgeId}
      (listed : id ∈ g.store.incomingOf node type) : g.Mentions (.edge id)
  | outgoingAt {node : NodeId} {id : EdgeId} (listed : id ∈ g.store.outgoing node) :
      g.Mentions (.node node)
  | incomingAt {node : NodeId} {id : EdgeId} (listed : id ∈ g.store.incoming node) :
      g.Mentions (.node node)
  | source {id : EdgeId} {edge : Edge} (found : g.edge? id = some edge) :
      g.Mentions (.node edge.source)
  | target {id : EdgeId} {edge : Edge} (found : g.edge? id = some edge) :
      g.Mentions (.node edge.target)
  | nodesFound {filter : NodeFilter} {selection : Selection NodeId}
      (selected : g.selectNodes? filter = .ok selection) {id : NodeId}
      (found : .ok id ∈ selection.items) : g.Mentions (.node id)
  | edgesFound {filter : EdgeFilter} {selection : Selection EdgeId}
      (selected : g.selectEdges? filter = .ok selection) {id : EdgeId}
      (found : .ok id ∈ selection.items) : g.Mentions (.edge id)
  | labelled {labels : List Label} {id : NodeId} (found : id ∈ (g.nodesWithAnyLabel labels).items) :
      g.Mentions (.node id)
  | matched {σ : Type} {p : PathPattern} {symbols : Symbols} {options : MatchOptions}
      {collector : Collector σ} {state : σ} {row : Row}
      (called : row ∈ (p.run g symbols options collector.traced ([], state)).1.1) {handle : Handle}
      (held : handle ∈ row.handles) : g.Mentions handle
  | joined {σ : Type} {clause : Clause} {symbols : Symbols} {options : MatchOptions}
      {collector : Collector σ} {state : σ} {row : Row}
      (called : row ∈ (clause.run g symbols options collector.traced ([], state)).1.1)
      {handle : Handle} (held : handle ∈ row.handles) : g.Mentions handle

variable {g : Graph}

theorem Sound.has_of_labelled (h : g.Sound) {labels : List Label} {id : NodeId}
    (found : id ∈ (g.nodesWithAnyLabel labels).items) : g.store.has (.node id) = true := by
  obtain ⟨label, -, mem⟩ := (LabelBuckets.mem_nodesWithAny id).mp found
  obtain ⟨node, record, -⟩ := h.buckets.nodes.mp mem
  exact Option.isSome_iff_exists.mpr ⟨node, record⟩

theorem Sound.has_of_mentions (h : g.Sound) {handle : Handle} (mentions : g.Mentions handle) :
    g.store.has handle = true := by
  have edge_live {id : EdgeId} {p : Edge → Prop} (there : ∃ edge, g.store.edge? id = some edge ∧ p edge) :
      g.store.has (.edge id) = true := by
    obtain ⟨edge, found, -⟩ := there
    exact Option.isSome_iff_exists.mpr ⟨edge, found⟩
  cases mentions with
  | nodeIds listed => exact Option.isSome_iff_exists.mpr (h.store.mem_nodeIds.mp listed)
  | edgeIds listed => exact Option.isSome_iff_exists.mpr (h.store.mem_edgeIds.mp listed)
  | outgoing listed => exact edge_live (h.store.mem_outgoing.mp listed)
  | incoming listed => exact edge_live (h.store.mem_incoming.mp listed)
  | outgoingOf listed => exact edge_live (h.store.outgoing.mp listed)
  | incomingOf listed => exact edge_live (h.store.incoming.mp listed)
  | outgoingAt listed =>
      obtain ⟨edge, found, rfl⟩ := h.store.mem_outgoing.mp listed
      exact h.store.sourceLive found
  | incomingAt listed =>
      obtain ⟨edge, found, rfl⟩ := h.store.mem_incoming.mp listed
      exact h.store.targetLive found
  | source found => exact h.store.sourceLive found
  | target found => exact h.store.targetLive found
  | nodesFound selected found =>
      obtain ⟨candidates, -, rfl⟩ := exists_of_map_eq_ok selected
      obtain ⟨-, record, there, -⟩ := mem_of_sift found
      exact Option.isSome_iff_exists.mpr ⟨record, there⟩
  | edgesFound selected found =>
      obtain ⟨candidates, -, rfl⟩ := exists_of_map_eq_ok selected
      obtain ⟨-, record, there, -⟩ := mem_of_sift found
      exact Option.isSome_iff_exists.mpr ⟨record, there⟩
  | labelled found => exact h.has_of_labelled found
  | matched called held => exact (PathPattern.live_of_call called).has held
  | joined called held => exact (Clause.live_of_call called).has held

theorem handles_stay_dead :
    (∀ changes : List Change, ((∅ : Graph).made changes).Nodup) ∧
      ∀ (earlier : List Change) (change : Change) (later : List Change) (handle : Handle),
        (earlier.foldl apply ∅).Removes change handle →
          let g := (earlier ++ change :: later).foldl apply ∅
          g.store.has handle = false ∧
            (∀ other : Change, handle ∈ other.handles → ∃ e, g.outcome other = .error e) ∧
            ¬g.Mentions handle := by
  refine ⟨nodup_made ∅, fun earlier change later handle removes => ?_⟩
  have before : (earlier.foldl apply ∅).Reachable := Reachable.empty.foldl earlier
  have after : ((earlier ++ change :: later).foldl apply ∅).Reachable := Reachable.empty.foldl _
  have absent : ((earlier ++ change :: later).foldl apply ∅).store.has handle = false := by
    rw [List.foldl_append, List.foldl_cons]
    exact before.sound.gone_after removes later
  refine ⟨absent, fun other names => refused_of_absent absent names, fun mentions => ?_⟩
  rw [after.sound.has_of_mentions mentions] at absent
  cases absent

theorem handles_stay_dead_pair :
    pair.Removes (.removeNode ⟨0⟩) (.edge ⟨0⟩) ∧
      let g := [.newNode ∅ ∅, .newNode ∅ ∅, .newEdge ⟨0⟩ ⟨1⟩ ⟨"T"⟩ ∅, .removeNode ⟨0⟩,
        .newNode ∅ ∅, .newEdge ⟨1⟩ ⟨2⟩ ⟨"T"⟩ ∅].foldl apply ∅
      g.store.edgeIds = [⟨1⟩] ∧ g.store.has (.edge ⟨0⟩) = false ∧
        (∀ other : Change, .edge ⟨0⟩ ∈ other.handles → ∃ e, g.outcome other = .error e) ∧
        ¬g.Mentions (.edge ⟨0⟩) := by
  have removes : pair.Removes (.removeNode ⟨0⟩) (.edge ⟨0⟩) :=
    .edgeOfRemoved rfl rfl (.inl rfl)
  exact ⟨removes, by decide, handles_stay_dead.2 [.newNode ∅ ∅, .newNode ∅ ∅,
    .newEdge ⟨0⟩ ⟨1⟩ ⟨"T"⟩ ∅] (.removeNode ⟨0⟩) [.newNode ∅ ∅, .newEdge ⟨1⟩ ⟨2⟩ ⟨"T"⟩ ∅]
    (.edge ⟨0⟩) removes⟩

end Graph

end PropertyGraph
