import WorkflowCompiler.Proofs.Compile.Places

/-!
# Connections that are accepted

A scan takes connections in order and stops at the first one that has a fault. What a fault is
depends on the level as it was built and on the connections in front alone, since a fork notes by
each of its ports exactly the connections that have left it.
-/
namespace WorkflowCompiler

open Step

/-- The node with an id has these branches. -/
def Session.HasBranching (s : Session) (id : String) (b : Branching) : Prop :=
  ∃ node, s.node? id = some node ∧ node.body.branching? = some b

/-- The declared cases of a fork. Other nodes and stand-ins have none. -/
def Node.cases (node : Node) : List ForkCase :=
  (node.body.branching?.map Branching.cases).getD []

theorem Node.cases_of_branching {node : Node} {b : Branching}
    (h : node.body.branching? = some b) : node.cases = b.cases := by
  unfold cases
  rw [h]
  rfl

theorem Node.BuiltFrom.cases {raw : EditorNode} {node : Node} (built : BuiltFrom raw node)
    {b : Branching} (hb : node.body.branching? = some b) : node.cases = raw.declaredCases := by
  rw [cases_of_branching hb, built.branching b hb]
  rfl

/-- The node with an id is a fork and no stand-in. -/
structure Session.Forks (s : Session) (id : String) (fork : Node) : Prop where
  there : s.node? id = some fork
  isFork : fork.isFork = true
  unfailed : fork.isFailed = false

namespace Session

theorem HasBranching.unique {s : Session} {id : String} {b c : Branching}
    (hb : s.HasBranching id b) (hc : s.HasBranching id c) : b = c := by
  obtain ⟨node, hn, hb⟩ := hb
  obtain ⟨node', hn', hc⟩ := hc
  obtain rfl : node = node' := Option.some.inj (hn.symm.trans hn')
  exact Option.some.inj (hb.symm.trans hc)

/-- Of the nodes of a built level, those that branch are the forks that are no stand-ins, with the
cases that they declare. -/
theorem Holds.node {s : Session} {raws : List EditorNode} (h : s.Holds raws) {id : String}
    (hid : id ∈ raws.map EditorNode.id) :
    ∃ node, s.node? id = some node ∧ node.id = id ∧
      (node.body.branching?.isSome = true ↔ s.Forks id node) ∧
      ∀ b, node.body.branching? = some b → b = .ofCases node.cases := by
  obtain ⟨raw, hraw, rfl⟩ := List.mem_map.mp hid
  obtain ⟨made, -, hmade, node, hnode, built⟩ := h raw hraw
  refine ⟨node, hnode, built.id.trans hmade, ⟨fun hsome => ?_, fun forks => ?_⟩, fun b hb => ?_⟩
  · have unfailed : node.isFailed = false := by
      by_contra hfailed
      have hnone : node.body.branching? = none :=
        NodeBody.branching?_of_isFailed (by simpa [Node.isFailed] using hfailed)
      simp [hnone] at hsome
    exact ⟨hnode, (built.wellMade.branching?_isSome unfailed).symm.trans hsome, unfailed⟩
  · exact (built.wellMade.branching?_isSome forks.unfailed).trans forks.isFork
  · rw [built.cases hb]
    exact built.branching b hb

/-- A scan makes no node a fork and no fork a stand-in. -/
theorem Reconnects.forks {s t : Session} (h : s.Reconnects t) {id : String} {fork : Node}
    (forks : t.Forks id fork) : ∃ old, s.Forks id old ∧ old.bare = fork.bare := by
  obtain ⟨old, hold, hbare, -⟩ := h.outline_of_get? forks.there
  exact ⟨old, ⟨hold, (Node.isFork_of_bare hbare).trans forks.isFork,
    (Node.isFailed_of_bare hbare).trans forks.unfailed⟩, hbare⟩

end Session

theorem Node.cases_eq_of_bare {a b : Node} (h : a.bare = b.bare) : a.cases = b.cases :=
  congrArg (Option.getD · []) (Node.cases_of_bare h)

namespace Level

/-- The connections that leave a node by a port, in order. -/
def leaving (edges : List EditorEdge) (id port : String) : List EditorEdge :=
  edges.filter fun e => e.source = id ∧ Branching.portOf e = port

/-- What is wrong with a connection behind others, in a level with these ids. -/
inductive Fault (s : Session) (ids : List String) (before : List EditorEdge) (edge : EditorEdge) :
    CompileError → Prop
  | source (unknown : edge.source ∉ ids) :
      Fault s ids before edge (.nodeNotFound edge.source edge.target)
  | target (known : edge.source ∈ ids) (unknown : edge.target ∉ ids) :
      Fault s ids before edge (.nodeNotFound edge.target edge.source)
  | port (ends : edge.source ∈ ids ∧ edge.target ∈ ids) {fork : Node}
      (forks : s.Forks edge.source fork)
      (undeclared : Branching.portOf edge ∉ fork.cases.map ForkCase.port) :
      Fault s ids before edge (.invalidConnection edge.source (Branching.portOf edge)
        "output handle does not match any declared case")
  | taken (ends : edge.source ∈ ids ∧ edge.target ∈ ids) {fork : Node}
      (forks : s.Forks edge.source fork)
      (declared : Branching.portOf edge ∈ fork.cases.map ForkCase.port)
      (left : leaving before edge.source (Branching.portOf edge) ≠ []) :
      Fault s ids before edge (.duplicateCaseEdge edge.source (Branching.portOf edge))

/-- None of these connections has a fault. -/
def Faultless (s : Session) (ids : List String) (edges : List EditorEdge) : Prop :=
  ∀ before edge after, edges = before ++ edge :: after → ¬ ∃ e, Fault s ids before edge e

theorem faultless_nil (s : Session) (ids : List String) : Faultless s ids [] := by
  intro before edge after h
  simp at h

theorem Faultless.concat {s : Session} {ids : List String} {edges : List EditorEdge}
    {edge : EditorEdge} (h : Faultless s ids edges) (last : ¬ ∃ e, Fault s ids edges edge e) :
    Faultless s ids (edges ++ [edge]) := by
  intro before other after hsplit
  rcases List.eq_nil_or_concat' after with rfl | ⟨rest, final, rfl⟩
  · obtain ⟨rfl, hlast⟩ := List.append_inj' hsplit rfl
    obtain rfl := List.singleton_inj.mp hlast
    exact last
  · rw [← List.cons_append, ← List.append_assoc] at hsplit
    exact h before other rest (List.append_inj' hsplit rfl).1

/-- A connection without a fault joins nodes of the level, and if it leaves a fork, it does so by a
declared port that is free. -/
structure Fits (s : Session) (ids : List String) (before : List EditorEdge) (edge : EditorEdge) :
    Prop where
  ends : edge.source ∈ ids ∧ edge.target ∈ ids
  declared : ∀ fork, s.Forks edge.source fork →
    Branching.portOf edge ∈ fork.cases.map ForkCase.port
  free : ∀ fork, s.Forks edge.source fork → leaving before edge.source (Branching.portOf edge) = []

theorem fits_of_not_fault {s : Session} {ids : List String} {before : List EditorEdge}
    {edge : EditorEdge} (h : ¬ ∃ e, Fault s ids before edge e) : Fits s ids before edge := by
  have known : edge.source ∈ ids := by
    by_contra unknown
    exact h ⟨_, .source unknown⟩
  have ends : edge.source ∈ ids ∧ edge.target ∈ ids := by
    refine ⟨known, ?_⟩
    by_contra unknown
    exact h ⟨_, .target known unknown⟩
  have declared : ∀ fork, s.Forks edge.source fork →
      Branching.portOf edge ∈ fork.cases.map ForkCase.port := by
    intro fork forks
    by_contra undeclared
    exact h ⟨_, .port ends forks undeclared⟩
  refine ⟨ends, declared, fun fork forks => ?_⟩
  by_contra left
  exact h ⟨_, .taken ends forks (declared fork forks) left⟩

/-! ## What a fork notes -/

/-- A fork with these cases has noted, by each of its ports, the connection that has left it. -/
structure Noted (before : List EditorEdge) (id : String) (declared : List ForkCase)
    (b : Branching) : Prop where
  cases : b.cases = declared
  get? : ∀ port, b.leaving.get? port =
    if port ∈ declared.map ForkCase.port then some (leaving before id port).head? else none
  once : ∀ port ∈ declared.map ForkCase.port, (leaving before id port).length ≤ 1

theorem noted_ofCases (id : String) (declared : List ForkCase) :
    Noted [] id declared (.ofCases declared) where
  cases := rfl
  get? port := by
    split
    · next h => exact Branching.get?_leaving_ofCases h
    · next h => exact Entries.get?_of_not_mem (mt Branching.mem_ports_ofCases.mp h)
  once _ _ := Nat.zero_le 1

theorem leaving_concat_self (before : List EditorEdge) (edge : EditorEdge) :
    leaving (before ++ [edge]) edge.source (Branching.portOf edge) =
      leaving before edge.source (Branching.portOf edge) ++ [edge] := by
  simp [leaving]

theorem leaving_concat_of_not {edge : EditorEdge} {id port : String}
    (h : ¬ (edge.source = id ∧ Branching.portOf edge = port)) (before : List EditorEdge) :
    leaving (before ++ [edge]) id port = leaving before id port := by
  simp [leaving, h]

section Fork

variable {before : List EditorEdge} {edge : EditorEdge} {id : String} {declared : List ForkCase}
  {b : Branching} (n : Noted before id declared b)

include n

theorem Noted.elsewhere (h : edge.source ≠ id) : Noted (before ++ [edge]) id declared b where
  cases := n.cases
  get? port := by
    rw [leaving_concat_of_not fun he => h he.1]
    exact n.get? port
  once port hport := by
    rw [leaving_concat_of_not fun he => h he.1]
    exact n.once port hport

theorem Noted.record (h : Branching.portOf edge ∈ declared.map ForkCase.port)
    (source : edge.source = id) (free : leaving before id (Branching.portOf edge) = []) :
    Noted (before ++ [edge]) id declared
      { b with leaving := b.leaving.insert (Branching.portOf edge) (some edge) } where
  cases := n.cases
  get? port := by
    show (b.leaving.insert (Branching.portOf edge) (some edge)).get? port = _
    rw [Entries.get?_insert]
    by_cases he : port = Branching.portOf edge
    · subst source he
      rw [leaving_concat_self, free, if_pos rfl, if_pos h]
      rfl
    · rw [leaving_concat_of_not fun hp => he hp.2.symm, if_neg he]
      exact n.get? port
  once port hport := by
    by_cases he : port = Branching.portOf edge
    · subst source he
      rw [leaving_concat_self, free]
      exact Nat.le_refl 1
    · rw [leaving_concat_of_not fun hp => he hp.2.symm]
      exact n.once port hport

theorem Noted.connect_undeclared (h : Branching.portOf edge ∉ declared.map ForkCase.port) :
    b.connect id edge = .error (.invalidConnection id (Branching.portOf edge)
      "output handle does not match any declared case") := by
  have hport := n.get? (Branching.portOf edge)
  rw [if_neg h] at hport
  unfold Branching.connect
  dsimp only
  rw [hport]

theorem Noted.connect_taken (h : Branching.portOf edge ∈ declared.map ForkCase.port)
    (left : leaving before id (Branching.portOf edge) ≠ []) :
    b.connect id edge = .error (.duplicateCaseEdge id (Branching.portOf edge)) := by
  have hport := n.get? (Branching.portOf edge)
  rw [if_pos h, List.head?_eq_some_head left] at hport
  unfold Branching.connect
  dsimp only
  rw [hport]

/-- By a declared port either nothing has left the fork or one connection, which it has noted. -/
theorem Noted.sole {port : String} (h : port ∈ declared.map ForkCase.port) :
    leaving before id port = [] ∧ b.leaving.get? port = some none ∨
      ∃ edge, leaving before id port = [edge] ∧ b.leaving.get? port = some (some edge) := by
  have hport := n.get? port
  rw [if_pos h] at hport
  rcases hleft : leaving before id port with _ | ⟨edge, more⟩
  · exact .inl ⟨rfl, by rw [hport, hleft, List.head?_nil]⟩
  · have hlength := n.once port h
    rw [hleft, List.length_cons] at hlength
    obtain rfl : more = [] := List.eq_nil_of_length_eq_zero (by omega)
    exact .inr ⟨edge, rfl, by rw [hport, hleft, List.head?_cons]⟩

end Fork

/-! ## The scan -/

theorem branching_of_leave {source made : Node} {edge : EditorEdge} {data : LinkData}
    (h : leave source edge = .ok (made, data)) {b : Branching}
    (hb : made.body.branching? = some b) :
    ∃ c, source.body.branching? = some c ∧
      b = { c with leaving := c.leaving.insert (Branching.portOf edge) (some edge) } := by
  unfold leave at h
  dsimp only at h
  split at h
  · next hnone =>
    obtain ⟨rfl, -⟩ := Prod.mk.inj (pure_eq_ok.mp h)
    cases hnone.symm.trans hb
  · next c hc =>
    obtain ⟨d, hd, h⟩ := bind_eq_ok.mp h
    obtain ⟨rfl, -⟩ := Prod.mk.inj (pure_eq_ok.mp h)
    obtain ⟨-, rfl⟩ := Branching.connect_eq_ok hd
    have hbody : (source.body.branching?.map fun _ => _) = some b :=
      (NodeBody.branching?_withBranching _ _).symm.trans hb
    rw [hc] at hbody
    exact ⟨c, hc, (Option.some.inj hbody).symm⟩

theorem hasBranching_bindInput {s : Session} {target id : String} {handle : Option String}
    {source : String} {b : Branching}
    (h : (s.modifyNode target fun node => node.bindInput handle source).HasBranching id b) :
    s.HasBranching id b := by
  obtain ⟨node, hn, hb⟩ := h
  have hn : Entries.get? (Entries.modify s.registry target _) id = some node := hn
  obtain ⟨rfl, old, hold, rfl⟩ | ⟨-, hn⟩ := Entries.get?_modify_cases hn
  · refine ⟨old, hold, ?_⟩
    rw [← hb]
    unfold Node.bindInput
    split <;> rfl
  · exact ⟨node, hn, hb⟩

/-- A scanned connection is noted by the fork that it leaves, and by no other. -/
theorem branching_of_connect {ids : List String} {w w' : Wiring} {edge : EditorEdge}
    {s t : Session} (run : connect ids w edge s = (.ok w', t)) {id : String} {b : Branching}
    (h : t.HasBranching id b) :
    ∃ c, s.HasBranching id c ∧ b =
      if id = edge.source then
        { c with leaving := c.leaving.insert (Branching.portOf edge) (some edge) }
      else c := by
  rw [run_connect] at run
  split at run
  · cases run
  · dsimp only at run
    split at run
    · next hnone =>
      obtain ⟨-, rfl⟩ := Prod.mk.inj run
      have hb := hasBranching_bindInput h
      refine ⟨b, hb, (if_neg ?_).symm⟩
      rintro rfl
      obtain ⟨node, hn, -⟩ := hb
      cases hnone.symm.trans hn
    · next source hsource =>
      split at run
      · cases run
      · next made data hleave =>
        obtain ⟨-, rfl⟩ := Prod.mk.inj run
        obtain ⟨node, hn, hb⟩ := hasBranching_bindInput h
        have hn : Entries.get? (Entries.modify s.registry edge.source fun _ => made) id =
            some node := hn
        obtain ⟨rfl, old, -, rfl⟩ | ⟨he, hn⟩ := Entries.get?_modify_cases hn
        · obtain ⟨c, hc, rfl⟩ := branching_of_leave hleave hb
          exact ⟨c, ⟨source, hsource, hc⟩, (if_pos rfl).symm⟩
        · exact ⟨b, ⟨node, hn, hb⟩, (if_neg he).symm⟩

theorem leave_succeeds {source : Node} {edge : EditorEdge}
    (free : ∀ b, source.body.branching? = some b →
      b.leaving.get? (Branching.portOf edge) = some none) :
    ∃ made data, leave source edge = .ok (made, data) := by
  unfold leave
  dsimp only
  split
  · exact ⟨_, _, rfl⟩
  · next b hb =>
    unfold Branching.connect
    dsimp only
    rw [free b hb]
    exact ⟨_, _, rfl⟩

/-- What the scan of these connections has made of a level that was built in session `s`. -/
structure Tracks (s : Session) (ids : List String) (before : List EditorEdge) (t : Session) :
    Prop where
  reconnects : s.Reconnects t
  noted : ∀ id ∈ ids, ∀ fork, s.Forks id fork → ∃ b, t.HasBranching id b ∧
    Noted before id fork.cases b

theorem tracks_nil {s : Session} {raws : List EditorNode} (holds : s.Holds raws) :
    Tracks s (raws.map EditorNode.id) [] s where
  reconnects := .refl s
  noted := by
    intro id hid fork forks
    obtain ⟨node, hn, -, branches, initial⟩ := holds.node hid
    obtain rfl : node = fork := Option.some.inj (hn.symm.trans forks.there)
    obtain ⟨b, hb⟩ := Option.isSome_iff_exists.mp (branches.mpr forks)
    exact ⟨b, ⟨node, hn, hb⟩, initial b hb ▸ noted_ofCases id node.cases⟩

theorem connect_of_leave_error {ids : List String} {edge : EditorEdge} {t : Session} {node : Node}
    {e : CompileError} (ends : edge.source ∈ ids ∧ edge.target ∈ ids)
    (hn : t.node? edge.source = some node) (h : leave node edge = .error e) (w : Wiring) :
    connect ids w edge t = (.error e, t) := by
  rw [run_connect, checkEnds_eq_ok.mpr ends]
  dsimp only
  rw [hn]
  dsimp only
  rw [h]

theorem leave_of_connect_error {node : Node} {edge : EditorEdge} {b : Branching}
    {e : CompileError} (hb : node.body.branching? = some b)
    (h : b.connect node.id edge = .error e) : leave node edge = .error e := by
  unfold leave
  dsimp only
  rw [hb]
  dsimp only
  rw [h]
  rfl

section Scan

variable {s t : Session} {raws : List EditorNode} (holds : s.Holds raws)
  {before : List EditorEdge} (tracks : Tracks s (raws.map EditorNode.id) before t)
  {edge : EditorEdge}

include holds tracks

/-- The fork that a connection leaves, as the scan finds it. -/
theorem Tracks.fork {id : String} (hid : id ∈ raws.map EditorNode.id) {fork : Node}
    (forks : s.Forks id fork) :
    ∃ node b, t.node? id = some node ∧ node.id = id ∧ node.body.branching? = some b ∧
      Noted before id fork.cases b := by
  obtain ⟨b, ⟨node, hn, hb⟩, noted⟩ := tracks.noted id hid fork forks
  obtain ⟨old, hold, hkeyed, -⟩ := holds.node hid
  obtain ⟨node', hn', hbare, -⟩ := tracks.reconnects.exists_get? hold
  obtain rfl : node = node' := Option.some.inj (hn.symm.trans hn')
  exact ⟨node, b, hn, (Node.id_of_bare hbare).symm.trans hkeyed, hb, noted⟩

/-- A scan stops at a connection that has a fault. -/
theorem Tracks.stops {e : CompileError} (fault : Fault s (raws.map EditorNode.id) before edge e)
    (w : Wiring) : connect (raws.map EditorNode.id) w edge t = (.error e, t) := by
  cases fault with
  | source unknown =>
    rw [run_connect]
    simp [checkEnds, unknown]
  | target known unknown =>
    rw [run_connect]
    simp [checkEnds, known, unknown]
  | port ends forks undeclared =>
    obtain ⟨node, b, hn, hkeyed, hb, noted⟩ := tracks.fork holds ends.1 forks
    refine connect_of_leave_error ends hn (leave_of_connect_error hb ?_) w
    rw [hkeyed]
    exact noted.connect_undeclared undeclared
  | taken ends forks declared left =>
    obtain ⟨node, b, hn, hkeyed, hb, noted⟩ := tracks.fork holds ends.1 forks
    refine connect_of_leave_error ends hn (leave_of_connect_error hb ?_) w
    rw [hkeyed]
    exact noted.connect_taken declared left

/-- Whatever branches while the level is scanned is a fork that was built. -/
theorem Tracks.noted_of_branching {id : String} (hid : id ∈ raws.map EditorNode.id) {b : Branching}
    (h : t.HasBranching id b) : ∃ fork, s.Forks id fork ∧ Noted before id fork.cases b := by
  obtain ⟨node, hn, hb⟩ := h
  obtain ⟨old, hold, -, branches, -⟩ := holds.node hid
  obtain ⟨node', hn', hbare, -⟩ := tracks.reconnects.exists_get? hold
  obtain rfl : node = node' := Option.some.inj (hn.symm.trans hn')
  obtain ⟨d, hd, -⟩ := Node.branching_of_bare hbare hb
  have forks := branches.mp (by simp [hd])
  obtain ⟨c, hc, noted⟩ := tracks.noted id hid old forks
  exact ⟨old, forks, Session.HasBranching.unique ⟨node, hn, hb⟩ hc ▸ noted⟩

theorem Tracks.connect_of_fits (fits : Fits s (raws.map EditorNode.id) before edge) (w : Wiring) :
    ∃ w' t', connect (raws.map EditorNode.id) w edge t = (.ok w', t') := by
  obtain ⟨old, hold, -⟩ := holds.node fits.ends.1
  obtain ⟨node, hn, -⟩ := tracks.reconnects.exists_get? hold
  have free : ∀ b, node.body.branching? = some b →
      b.leaving.get? (Branching.portOf edge) = some none := by
    intro b hb
    obtain ⟨fork, forks, noted⟩ := tracks.noted_of_branching holds fits.ends.1 ⟨node, hn, hb⟩
    rw [noted.get?, if_pos (fits.declared fork forks), fits.free fork forks]
    rfl
  obtain ⟨made, data, hleave⟩ := leave_succeeds free
  have hn : t.node? edge.source = some node := hn
  rw [run_connect, checkEnds_eq_ok.mpr fits.ends]
  dsimp only
  rw [hn]
  dsimp only
  rw [hleave]
  exact ⟨_, _, rfl⟩

/-- A scan adds the link of a connection that has no fault, and goes on. -/
theorem Tracks.next (no : ¬ ∃ e, Fault s (raws.map EditorNode.id) before edge e) (w : Wiring) :
    ∃ t', connect (raws.map EditorNode.id) w edge t =
        (.ok (w.addLink edge.source edge.target (arrow s.registry edge).data), t') ∧
      Tracks s (raws.map EditorNode.id) (before ++ [edge]) t' := by
  have fits := fits_of_not_fault no
  obtain ⟨w', t', run⟩ := tracks.connect_of_fits holds fits w
  obtain ⟨re, -, -, rfl⟩ := (ensures_connect _ w edge t).of_ok run
  rw [arrow_of_same tracks.reconnects.same] at run
  refine ⟨t', run, tracks.reconnects.trans re, fun id hid fork forks => ?_⟩
  obtain ⟨node, b, hn, -, hb, noted⟩ := tracks.fork holds hid forks
  obtain ⟨after, hafter, hbare, -⟩ := re.exists_get? hn
  obtain ⟨b', hb', -⟩ := Node.branching_of_bare hbare.symm hb
  have has : t'.HasBranching id b' := ⟨after, hafter, hb'⟩
  obtain ⟨c, hc, hmade⟩ := branching_of_connect run has
  obtain rfl := hc.unique ⟨node, hn, hb⟩
  refine ⟨b', has, ?_⟩
  -- only the fork that the connection leaves has something to note
  by_cases he : id = edge.source
  · subst he
    rw [hmade, if_pos rfl]
    exact noted.record (fits.declared fork forks) rfl (fits.free fork forks)
  · rw [hmade, if_neg he]
    exact noted.elsewhere (Ne.symm he)

/-- A scan of connections that have no fault adds the links of all of them. -/
theorem Tracks.run {edges : List EditorEdge}
    (faultless : Faultless s (raws.map EditorNode.id) (before ++ edges)) (w : Wiring) :
    ∃ t', edges.foldlM (connect (raws.map EditorNode.id)) w t =
        (.ok ((edges.map (arrow s.registry)).foldl
          (fun w a => w.addLink a.source a.target a.data) w), t') ∧
      Tracks s (raws.map EditorNode.id) (before ++ edges) t' := by
  induction edges generalizing before t w with
  | nil => exact ⟨t, rfl, (List.append_nil before).symm ▸ tracks⟩
  | cons edge edges ih =>
    obtain ⟨t₁, first, tracks₁⟩ := tracks.next holds (faultless before edge edges rfl) w
    rw [List.append_cons] at faultless ⊢
    obtain ⟨t₂, rest, tracks₂⟩ := ih tracks₁ faultless _
    refine ⟨t₂, ?_, tracks₂⟩
    rw [List.foldlM_cons]
    exact run_bind_eq_ok.mpr ⟨_, t₁, first, rest⟩

end Scan

/-- Connections have no fault, or one of them is the first that has one. -/
theorem faultless_or_first_fault (s : Session) (ids : List String) (edges : List EditorEdge) :
    Faultless s ids edges ∨ ∃ before edge after e, edges = before ++ edge :: after ∧
      Faultless s ids before ∧ Fault s ids before edge e := by
  induction edges using List.reverseRecOn with
  | nil => exact .inl (faultless_nil s ids)
  | append_singleton edges edge ih =>
    obtain faultless | ⟨before, other, after, e, rfl, faultless, fault⟩ := ih
    · by_cases last : ∃ e, Fault s ids edges edge e
      · obtain ⟨e, fault⟩ := last
        exact .inr ⟨edges, edge, [], e, rfl, faultless, fault⟩
      · exact .inl (faultless.concat last)
    · refine .inr ⟨before, other, after ++ [edge], e, ?_, faultless, fault⟩
      rw [List.append_assoc, List.cons_append]

/-- The link that a connection of a built level becomes. It carries the key of the first case that
is declared for its port, and a text that formats its data. -/
structure Becomes (s : Session) (edge : EditorEdge) (a : Arrow) : Prop where
  source : a.source = edge.source
  target : a.target = edge.target
  targetHandle : a.data.targetHandle = edge.targetHandle
  key_of_fork : ∀ fork, s.Forks edge.source fork → ∃ c,
    fork.cases.find? (fun c => c.port = Branching.portOf edge) = some c ∧ a.data.key = c.key
  key_of_other : (¬ ∃ fork, s.Forks edge.source fork) → a.data.key = ""
  formatter : ∀ node, s.node? edge.source = some node → a.data.formatter =
    edge.formatter.orElse fun _ => if node.isFork then none else edge.label

/-- What a scan makes of a built level: a link for each connection, in order, and for each port of a
fork the one connection that leaves it, if any. -/
structure Connected (graph : EditorGraph) (s : Session) (w : Wiring) (t : Session) : Prop where
  same : s.registry.Same t.registry
  nodes : w.nodes = Wiring.appendNew [] (graph.nodes.map EditorNode.id)
  links : List.Forall₂ (Becomes s) graph.edges w.arrows
  noted : ∀ id ∈ graph.nodes.map EditorNode.id, ∀ fork, t.Forks id fork →
    ∃ b, fork.body.branching? = some b ∧
      (∀ port ∈ fork.cases.map ForkCase.port,
        leaving graph.edges id port = [] ∧ b.leaving.get? port = some none ∨
        ∃ edge, leaving graph.edges id port = [edge] ∧ b.leaving.get? port = some (some edge)) ∧
      ∀ port ∉ fork.cases.map ForkCase.port, b.leaving.get? port = none

section Level

variable {graph : EditorGraph} {s : Session} (holds : s.Holds graph.nodes)

include holds

theorem becomes_arrow {before : List EditorEdge} {edge : EditorEdge}
    (fits : Fits s (graph.nodes.map EditorNode.id) before edge) :
    Becomes s edge (arrow s.registry edge) := by
  obtain ⟨node, hn, -, branches, -⟩ := holds.node fits.ends.1
  have hdata : (arrow s.registry edge).data = linkData node edge := by
    unfold arrow
    rw [show s.registry.get? edge.source = some node from hn]
  refine ⟨rfl, rfl, by rw [hdata]; rfl, fun fork forks => ?_, fun other => ?_, fun node' hn' => ?_⟩
  · obtain rfl : node = fork := Option.some.inj (hn.symm.trans forks.there)
    obtain ⟨b, hb⟩ := Option.isSome_iff_exists.mp (branches.mpr forks)
    obtain ⟨first, hfirst, hport⟩ := List.mem_map.mp (fits.declared node forks)
    have hsome : (node.cases.find? fun c => c.port = Branching.portOf edge).isSome = true :=
      List.find?_isSome.mpr ⟨first, hfirst, by simp [hport]⟩
    obtain ⟨c, hc⟩ := Option.isSome_iff_exists.mp hsome
    refine ⟨c, hc, ?_⟩
    rw [Node.cases_of_branching hb] at hc
    rw [hdata]
    unfold linkData Branching.keyOf?
    rw [hb, Option.bind_some, hc]
    rfl
  · have hnone : node.body.branching? = none := by
      by_contra hsome
      exact other ⟨node, branches.mp (Option.isSome_iff_ne_none.mpr hsome)⟩
    rw [hdata]
    unfold linkData
    rw [hnone]
    rfl
  · obtain rfl : node = node' := Option.some.inj (hn.symm.trans hn')
    rw [hdata]
    rfl

/-- The scan of a level stops at the first connection that has a fault. -/
theorem connectAll_stops {before after : List EditorEdge} {edge : EditorEdge} {e : CompileError}
    (split : graph.edges = before ++ edge :: after)
    (faultless : Faultless s (graph.nodes.map EditorNode.id) before)
    (fault : Fault s (graph.nodes.map EditorNode.id) before edge e) :
    ∃ t, connectAll graph s = (.error e, t) := by
  obtain ⟨t, run, tracks⟩ := (tracks_nil holds).run holds faultless
    ((graph.nodes.map EditorNode.id).foldl Wiring.addNode {})
  refine ⟨t, ?_⟩
  unfold connectAll
  rw [split, List.foldlM_append, run_bind, run]
  dsimp only
  rw [List.foldlM_cons, run_bind, tracks.stops holds fault]

/-- A level whose connections have no fault is connected. -/
theorem connectAll_connects
    (faultless : Faultless s (graph.nodes.map EditorNode.id) graph.edges) :
    ∃ w t, connectAll graph s = (.ok w, t) ∧ Connected graph s w t := by
  obtain ⟨t, run, tracks⟩ := (tracks_nil holds).run holds faultless
    ((graph.nodes.map EditorNode.id).foldl Wiring.addNode {})
  obtain ⟨-, hw, scanned⟩ := (ensures_connectAll graph s).of_ok run
  have ends : ∀ a ∈ graph.edges.map (arrow s.registry), _ := ends_of_edges scanned.ends
  rw [hw] at run
  refine ⟨wiring s.registry graph, t, run, tracks.reconnects.same, Wiring.nodes_wired ends, ?_,
    fun id hid fork forks => ?_⟩
  · unfold wiring
    rw [Wiring.arrows_wired ends, List.forall₂_map_right_iff, List.forall₂_same]
    intro edge hedge
    obtain ⟨before, after, split⟩ := List.append_of_mem hedge
    exact becomes_arrow holds (fits_of_not_fault (faultless before edge after split))
  · obtain ⟨old, were, hbare⟩ := tracks.reconnects.forks forks
    obtain ⟨b, ⟨node, hn, hb⟩, noted⟩ := tracks.noted id hid old were
    obtain rfl : node = fork := Option.some.inj (hn.symm.trans forks.there)
    rw [Node.cases_eq_of_bare hbare] at noted
    refine ⟨b, hb, fun port hport => noted.sole hport, fun port hport => ?_⟩
    rw [noted.get?, if_neg hport]

end Level

/-- A scan accepts a built level exactly if none of its connections has a fault, and otherwise stops
at the first that has one. What it accepts it connects: each connection becomes a link, in order, and
each fork knows the one connection that leaves it by each of its ports. -/
theorem scan_accepts_wellConnected {room : Nat} {graph : EditorGraph} {s₀ s : Session}
    (built : buildAll (nestedCompiler room) graph s₀ = (.ok (), s)) :
    ((∃ w t, connectAll graph s = (.ok w, t)) ↔
      Faultless s (graph.nodes.map EditorNode.id) graph.edges) ∧
    (∀ e, (∃ t, connectAll graph s = (.error e, t)) ↔
      ∃ before edge after, graph.edges = before ++ edge :: after ∧
        Faultless s (graph.nodes.map EditorNode.id) before ∧
        Fault s (graph.nodes.map EditorNode.id) before edge e) ∧
    ∀ w t, connectAll graph s = (.ok w, t) → Connected graph s w t := by
  obtain ⟨-, holds, -⟩ := (ensures_buildAll (behaves_nestedCompiler room) graph s₀).of_ok built
  rcases faultless_or_first_fault s (graph.nodes.map EditorNode.id) graph.edges with
    faultless | ⟨before, edge, after, e, split, faultless, fault⟩
  · obtain ⟨w, t, run, connected⟩ := connectAll_connects holds faultless
    refine ⟨⟨fun _ => faultless, fun _ => ⟨w, t, run⟩⟩, fun e => ⟨?_, ?_⟩, ?_⟩
    · rintro ⟨t', run'⟩
      cases run.symm.trans run'
    · rintro ⟨before, edge, after, split, -, fault⟩
      exact absurd ⟨e, fault⟩ (faultless before edge after split)
    · intro w' t' run'
      obtain ⟨hw, rfl⟩ := Prod.mk.inj (run.symm.trans run')
      exact Except.ok.inj hw ▸ connected
  · obtain ⟨t, run⟩ := connectAll_stops holds split faultless fault
    refine ⟨⟨?_, fun all => absurd ⟨e, fault⟩ (all before edge after split)⟩, fun e' => ⟨?_, ?_⟩, ?_⟩
    · rintro ⟨w, t', run'⟩
      cases run.symm.trans run'
    · rintro ⟨t', run'⟩
      obtain ⟨he, -⟩ := Prod.mk.inj (run.symm.trans run')
      exact ⟨before, edge, after, split, faultless, Except.error.inj he ▸ fault⟩
    · rintro ⟨before', edge', after', split', faultless', fault'⟩
      exact connectAll_stops holds split' faultless' fault'
    · intro w t' run'
      cases run.symm.trans run'

theorem scan_accepts_wellConnected_oneFork :
    ∃ s w t, buildAll (nestedCompiler 16) oneFork {} = (.ok (), s) ∧
      connectAll oneFork s = (.ok w, t) ∧
      Faultless s (oneFork.nodes.map EditorNode.id) oneFork.edges ∧ Connected oneFork s w t := by
  have ok : (buildAll (nestedCompiler 16) oneFork {}).1.isOk = true := by decide +kernel
  have scans : (connectAll oneFork (buildAll (nestedCompiler 16) oneFork {}).2).1.isOk = true := by
    decide +kernel
  rcases built : buildAll (nestedCompiler 16) oneFork {} with ⟨e | _, s⟩
  · rw [built] at ok
    cases ok
  · rw [built] at scans
    obtain ⟨accepts, -, connects⟩ := scan_accepts_wellConnected built
    rcases run : connectAll oneFork s with ⟨e | w, t⟩
    · rw [run] at scans
      cases scans
    · exact ⟨s, w, t, rfl, run, accepts.mp ⟨w, t, run⟩, connects w t run⟩

end Level

end WorkflowCompiler
