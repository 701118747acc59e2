import ParamStore.Proofs.Store.Request

/-!
# Sound stores

A store of kind `k` is sound if it is consistent and all its nodes are well
formed: a shared value has an owner with a name and carries the pin of its
node, and every value is one that the kind admits. A store that was empty
stays sound whatever is asked of it (`sound_serve`).
-/

namespace ParamStore

theorem Kind.admits_of_coerce {k : Kind} {input : Input} {p : Parameter}
    (h : k.coerce input = .ok p) : k.Admits p := by
  unfold Kind.coerce at h
  cases input with
  | bare v =>
    obtain ⟨⟨⟩, hv, hp⟩ := bind_eq_ok.1 h
    cases hp
    exact ⟨rfl, hv⟩
  | made q =>
    dsimp only at h
    split at h
    · next hk =>
      obtain ⟨⟨⟩, hv, hp⟩ := bind_eq_ok.1 h
      cases hp
      exact ⟨hk, hv⟩
    · cases h

theorem Kind.coerce_made {k : Kind} {p : Parameter} (h : k.Admits p) :
    k.coerce (.made p) = .ok p := by
  obtain ⟨hk, hv⟩ := h
  unfold Kind.coerce
  simp [hk, hv, bind, Except.bind, pure, Except.pure]

theorem Kind.coerce_plain {k : Kind} {v : Json.Value} (h : k.Admits (.plain k v)) :
    k.coerce (.bare v) = .ok (.plain k v) := by
  have hv : k.validate v = .ok () := h.2
  unfold Kind.coerce
  simp [hv, bind, Except.bind, pure, Except.pure]

theorem Kind.coerce_bare {k : Kind} {v : Json.Value} {p : Parameter}
    (h : k.coerce (.bare v) = .ok p) : p = .plain k v := by
  unfold Kind.coerce at h
  obtain ⟨-, -, hp⟩ := bind_eq_ok.1 h
  cases hp
  rfl

namespace Store

variable {s s' : Store} {k : Kind} {caller : Caller}

/-! ## Well-formed nodes stay so -/

theorem wellFormed_setNode {o : SetOptions} {p stored : Parameter} {n n' : Node}
    (hn : n.WellFormed k) (hp : k.Admits p)
    (h : setNode k caller o p n = .ok (stored, n')) : n'.WellFormed k := by
  obtain ⟨-, -, hset⟩ | ⟨-, hset⟩ := setNode_cases h
  · exact hn.setShared hp hset
  · exact hn.setLocal hp hset

theorem wellFormed_emptyShared {g : Group} {force unfreeze : Bool} {n n' : Node}
    {removed : Option Parameter} (hn : n.WellFormed k)
    (h : emptyShared g force unfreeze n = .ok (removed, n')) : n'.WellFormed k := by
  obtain ⟨-, emptied, hu, rfl⟩ := emptyShared_eq_ok.1 h
  have hemptied : emptied.WellFormed k := hn.unsetShared hu
  split
  · exact hemptied.released
  · exact hemptied

theorem wellFormed_unsetNode {o : UnsetOptions} {removed : Option Parameter} {n n' : Node}
    (hn : n.WellFormed k) (h : unsetNode k caller o n = .ok (removed, n')) :
    n'.WellFormed k := by
  unfold unsetNode at h
  split at h
  · cases h
  · obtain ⟨-, -, rfl⟩ := Node.unsetLocal_eq_ok.1 h
    exact hn.eraseLocal caller.scope
  · split at h
    · cases h
    · exact wellFormed_emptyShared hn h

theorem wellFormed_releasedFor {g : Group} {n : Node} (hn : n.WellFormed k) :
    (releasedFor g n).WellFormed k := by
  unfold releasedFor
  split
  · exact hn.released
  · exact hn

/-! ## Sound stores stay so -/

structure Sound (k : Kind) (s : Store) : Prop extends s.Consistent where
  wellFormed : ∀ p n, s.at? p = some n → n.WellFormed k

theorem Sound.empty (k : Kind) : empty.Sound k :=
  ⟨.empty, fun p n h => by simp at h⟩

theorem Sound.wellFormed_getD (h : s.Sound k) (p : Path) :
    ((s.at? p).getD (.fresh p)).WellFormed k := by
  cases hat : s.at? p with
  | none => exact .fresh k p
  | some n => exact h.wellFormed p n hat

theorem Yields.sound {view : Path → Option Node} (hy : s.Yields s' view)
    (h : ∀ p n, view p = some n → n.WellFormed k) : s'.Sound k :=
  ⟨hy.consistent, fun p n hn => h p n ((hy.at?_eq p).symm.trans hn)⟩

theorem Sound.change (h : s.Sound k) {p : Path} {n' : Node} {m : Option Node}
    (hy : s.Yields s' fun q => if p = q then m else s.at? q) (hm : ∀ n, m = some n → n = n')
    (hn' : n'.WellFormed k) : s'.Sound k := by
  refine hy.sound fun q n hn => ?_
  split at hn
  · exact hm n hn ▸ hn'
  · exact h.wellFormed q n hn

theorem Sound.change_all (h : s.Sound k) {f : Node → Node}
    (hy : s.Yields s' fun p => (s.at? p).bind fun n => (f n).kept)
    (hf : ∀ n, n.WellFormed k → (f n).WellFormed k) : s'.Sound k := by
  refine hy.sound fun p n hn => ?_
  obtain ⟨m, hm, hk⟩ := Option.bind_eq_some_iff.1 hn
  obtain ⟨-, rfl⟩ := Node.kept_eq_some.1 hk
  exact hf m (h.wellFormed p m hm)

theorem Sound.set (h : s.Sound k) (caller : Caller) (text : String) (input : Input)
    (o : SetOptions) : (s.set k caller text input o).2.Sound k := by
  obtain ⟨e, -, heq⟩ | ⟨p, stored, n', hplan, -, hy⟩ :=
    set_cases k caller h.toConsistent text input o
  · rw [heq]
    exact h
  · obtain ⟨q, hq, -, -, hnode⟩ := planSet_eq_ok.1 hplan
    have hn' : n'.WellFormed k :=
      wellFormed_setNode (h.wellFormed_getD p) (Kind.admits_of_coerce hq) hnode
    exact h.change hy (fun n hn => (Option.some.inj hn).symm) hn'

theorem Sound.unset (h : s.Sound k) (caller : Caller) (text : String) (o : UnsetOptions) :
    (s.unset k caller text o).2.Sound k := by
  obtain ⟨e, -, heq⟩ | ⟨p, removed, n', hplan, -, hy⟩ :=
    unset_cases k caller h.toConsistent text o
  · rw [heq]
    exact h
  · obtain ⟨-, -, n, hn, hnode⟩ := (planUnset_eq_ok h.toTraced).1 hplan
    have hn' : n'.WellFormed k := wellFormed_unsetNode (h.wellFormed p n hn) hnode
    exact h.change hy (fun m hm => (Node.kept_eq_some.1 hm).2) hn'

theorem Sound.flush (h : s.Sound k) (key : ScopeKey) : (s.flush key).2.Sound k :=
  h.change_all (yields_flush h.toConsistent key) fun _ hn => hn.eraseLocal key

theorem Sound.clearFrozen (h : s.Sound k) (g : Group) : (s.clearFrozen g).2.Sound k :=
  h.change_all (yields_clearFrozen h.toConsistent g).2 fun _ => wellFormed_releasedFor

theorem sound_serve (h : s.Sound k) (caller : Caller) (r : Request) :
    (s.serve k caller r).2.Sound k := by
  cases r with
  | set text input o => exact h.set caller text input o
  | unset text o => exact h.unset caller text o
  | flush => exact h.flush caller.scope
  | clearFrozen g => exact h.clearFrozen g
  | get | has | dictionary | owner | isFrozen | groupPaths | scopePaths | hasScope | groupNames
  | paths | size => exact h

end Store

end ParamStore
