import ParamStore.Container
import ParamStore.Proofs.Store.Lookup
import ParamStore.Proofs.Store.Sound

/-!
# What operations do to a container

An operation on the store of one kind leaves the registry and the other
stores alone. `Turns` says so, and which nodes the store holds afterwards;
the operations on a container are described by it from here on.
-/

namespace ParamStore

/-! ## The registry -/

namespace Registry

variable {r : Registry} {g g' : Group}

theorem isAuthorized_iff : r.isAuthorized g = true ↔
    g = r.defaultGroup ∨ g ∈ r.trusted ∨ r.registered.find? g = some () := by
  unfold isAuthorized Table.contains
  cases h : r.registered.find? g <;> simp

/-- A group that is registered may write. -/
theorem isAuthorized_register (r : Registry) (g : Group) :
    (r.register g).2.isAuthorized g = true := by
  unfold register
  split
  · assumption
  · rw [isAuthorized_iff]
    exact .inr (.inr (by rw [Table.find?_insert, if_pos rfl]))

/-- Registering takes no right away. -/
theorem isAuthorized_of_register (h : r.isAuthorized g = true) (g' : Group) :
    (r.register g').2.isAuthorized g = true := by
  unfold register
  split
  · exact h
  · rw [isAuthorized_iff] at h ⊢
    refine h.imp_right (Or.imp_right fun hg => ?_)
    rw [Table.find?_insert]
    split
    · rfl
    · exact hg

theorem isAuthorized_unregister (hne : g' ≠ g) :
    (r.unregister g').isAuthorized g = r.isAuthorized g := by
  unfold unregister isAuthorized Table.contains
  rw [Table.find?_erase, if_neg hne]

/-- Without a registration only the default group and the trusted ones may
write. -/
theorem isAuthorized_unregister_self : (r.unregister g).isAuthorized g = true ↔
    g = r.defaultGroup ∨ g ∈ r.trusted := by
  rw [isAuthorized_iff, unregister, Table.find?_erase, if_pos rfl]
  simp

theorem register_of_not_added (h : (r.register g).1 = false) : (r.register g).2 = r := by
  unfold register at h ⊢
  split
  · rfl
  · next ha => simp [ha] at h

/-- Taking a registration back that was needed leaves the registry as it was. -/
theorem unregister_register (h : (r.register g).1 = true) :
    (r.register g).2.unregister g = r := by
  unfold register at h ⊢
  split
  · next ha => simp [ha] at h
  · next ha =>
    have hnone : r.registered.find? g = none := by
      rw [isAuthorized_iff] at ha
      cases hf : r.registered.find? g with
      | none => rfl
      | some _ => exact absurd (.inr (.inr hf)) ha
    simp only [unregister, Table.erase_insert hnone]

end Registry

namespace Container

variable {c c' c₁ c₂ : Container} {k : Kind}

/-! ## Sound containers -/

/-- The node of kind `k` at a path. -/
def at? (c : Container) (k : Kind) (p : Path) : Option Node := (c.store k).at? p

/-- Every store is sound. -/
def Sound (c : Container) : Prop := ∀ k, (c.store k).Sound k

theorem Sound.ofConfig (config : Config) : (ofConfig config).Sound := by
  intro k
  cases k <;> exact .empty _

theorem Sound.withStore (h : c.Sound) {s : Store} (hs : s.Sound k) : (c.withStore k s).Sound := by
  intro k'
  rw [store_withStore]
  split
  · next hk => exact hk ▸ hs
  · exact h k'

/-- Only the stores count for soundness. -/
theorem Sound.congr (h : c.Sound) (heq : ∀ k, c'.store k = c.store k) : c'.Sound := fun k => by
  rw [heq]
  exact h k

@[simp] theorem withStore_store (c : Container) (k : Kind) : c.withStore k (c.store k) = c := by
  cases k <;> rfl

theorem eq_of_stores (hr : c.registry = c'.registry) (hs : ∀ k, c.store k = c'.store k) :
    c = c' := by
  have henv : c.env = c'.env := hs .env
  have hvar : c.var = c'.var := hs .var
  have hctx : c.ctx = c'.ctx := hs .ctx
  have hkey : c.key = c'.key := hs .key
  have hproc : c.proc = c'.proc := hs .proc
  obtain ⟨_, _, _, _, _, _⟩ := c
  cases hr
  cases henv
  cases hvar
  cases hctx
  cases hkey
  cases hproc
  rfl

theorem Sound.path_at? (h : c.Sound) {p : Path} {n : Node} (hn : c.at? k p = some n) :
    n.path = p :=
  (h k).path_at? hn

theorem Sound.kept_at? (h : c.Sound) {p : Path} {n : Node} (hn : c.at? k p = some n) :
    n.isRemovable = false :=
  (h k).at?_kept hn

theorem Sound.wellFormed (h : c.Sound) {p : Path} {n : Node} (hn : c.at? k p = some n) :
    n.WellFormed k :=
  Store.Sound.wellFormed (h k) p n hn

/-- A text at which a node is seen stands for a path with that node. -/
theorem at?_of_look {α : Type} {f : Node → α} {a : α} {text : String}
    (h : (Store.readPath text).toOption.bind (fun p => (c.at? k p).map f) = some a) :
    ∃ p, Store.readPath text = .ok p ∧ ∃ n, c.at? k p = some n ∧ f n = a := by
  cases hp : Store.readPath text with
  | error e => simp [hp, Except.toOption] at h
  | ok p =>
    rw [hp] at h
    obtain ⟨n, hn, hfields⟩ := Option.map_eq_some_iff.1 h
    exact ⟨p, rfl, n, hn, hfields⟩

/-! ### Changes of the registry -/

@[simp] theorem store_register (c : Container) (g : Group) (k : Kind) :
    (c.register g).2.store k = c.store k := by
  cases k <;> rfl

@[simp] theorem at?_register (c : Container) (g : Group) (k : Kind) (p : Path) :
    (c.register g).2.at? k p = c.at? k p := by
  unfold at?
  rw [store_register]

@[simp] theorem store_unregister (c : Container) (g : Group) (k : Kind) :
    (c.unregister g).store k = c.store k := by
  cases k <;> rfl

@[simp] theorem at?_unregister (c : Container) (g : Group) (k : Kind) (p : Path) :
    (c.unregister g).at? k p = c.at? k p := by
  unfold at?
  rw [store_unregister]

theorem Sound.register (h : c.Sound) (g : Group) : (c.register g).2.Sound :=
  h.congr (store_register c g)

theorem Sound.unregister (h : c.Sound) (g : Group) : (c.unregister g).Sound :=
  h.congr (store_unregister c g)

/-! ## Operations on one store -/

/-- What an operation on the store of kind `k` makes of `c`: a sound
container in which that store holds the nodes of `view`. -/
structure Turns (k : Kind) (c c' : Container) (view : Path → Option Node) : Prop where
  sound : c'.Sound
  registry_eq : c'.registry = c.registry
  store_eq : ∀ k', k' ≠ k → c'.store k' = c.store k'
  at?_eq : ∀ p, c'.at? k p = view p

theorem Sound.turns_self (h : c.Sound) (k : Kind) : Turns k c c (c.at? k) :=
  ⟨h, rfl, fun _ _ => rfl, fun _ => rfl⟩

theorem Turns.trans {view view' : Path → Option Node} (h : Turns k c c₁ view)
    (h' : Turns k c₁ c₂ view') : Turns k c c₂ view' :=
  ⟨h'.sound, h'.registry_eq.trans h.registry_eq,
    fun k' hk => (h'.store_eq k' hk).trans (h.store_eq k' hk), h'.at?_eq⟩

theorem Turns.congr {view view' : Path → Option Node} (h : Turns k c c' view)
    (heq : ∀ p, view p = view' p) : Turns k c c' view' :=
  ⟨h.sound, h.registry_eq, h.store_eq, fun p => (h.at?_eq p).trans (heq p)⟩

theorem Sound.turns_withStore (h : c.Sound) {s : Store} {view : Path → Option Node}
    (hs : s.Sound k) (hat : ∀ p, s.at? p = view p) : Turns k c (c.withStore k s) view := by
  refine ⟨h.withStore hs, registry_withStore c k s, fun k' hk => ?_, fun p => ?_⟩
  · rw [store_withStore, if_neg (Ne.symm hk)]
  · unfold at?
    rw [store_withStore, if_pos rfl]
    exact hat p

/-- A set that is refused changes nothing, and any other one changes the node
at one path. -/
theorem Sound.turns_set (h : c.Sound) (thread : Nat) (k : Kind) (text : String) (input : Input)
    (o : SetOptions) :
    (∃ e, (c.store k).planSet k (c.caller thread) text input o = .error e
      ∧ c.set thread k text input o = (.error e, c)) ∨
    ∃ p stored n', (c.store k).planSet k (c.caller thread) text input o = .ok (p, stored, n')
      ∧ (c.set thread k text input o).1 = .ok stored
      ∧ Turns k c (c.set thread k text input o).2 fun q =>
          if p = q then some n' else c.at? k q := by
  obtain ⟨e, hplan, heq⟩ | ⟨p, stored, n', hplan, hok, hy⟩ :=
    Store.set_cases k (c.caller thread) (h k).toConsistent text input o
  · refine .inl ⟨e, hplan, ?_⟩
    simp only [set, heq, withStore_store]
  · exact .inr ⟨p, stored, n', hplan, hok,
      h.turns_withStore ((h k).set (c.caller thread) text input o) hy.at?_eq⟩

/-- An unset that is refused changes nothing, and any other one changes the
node at one path, which goes if it is of no more use. -/
theorem Sound.turns_unset (h : c.Sound) (thread : Nat) (k : Kind) (text : String)
    (o : UnsetOptions) :
    (∃ e, (c.store k).planUnset k (c.caller thread) text o = .error e
      ∧ c.unset thread k text o = (.error e, c)) ∨
    ∃ p removed n', (c.store k).planUnset k (c.caller thread) text o = .ok (p, removed, n')
      ∧ (c.unset thread k text o).1 = .ok removed
      ∧ Turns k c (c.unset thread k text o).2 fun q =>
          if p = q then n'.kept else c.at? k q := by
  obtain ⟨e, hplan, heq⟩ | ⟨p, removed, n', hplan, hok, hy⟩ :=
    Store.unset_cases k (c.caller thread) (h k).toConsistent text o
  · refine .inl ⟨e, hplan, ?_⟩
    simp only [unset, heq, withStore_store]
  · exact .inr ⟨p, removed, n', hplan, hok,
      h.turns_withStore ((h k).unset (c.caller thread) text o) hy.at?_eq⟩

theorem Sound.turns_clearKind (h : c.Sound) (k : Kind) (g : Group) :
    (∃ count, (c.clearKind k g).1 = .ok count) ∧
      Turns k c (c.clearKind k g).2 fun p =>
        (c.at? k p).bind fun n => (Store.releasedFor g n).kept := by
  obtain ⟨hok, hy⟩ := Store.yields_clearFrozen (h k).toConsistent g
  exact ⟨hok, h.turns_withStore ((h k).clearFrozen g) hy.at?_eq⟩

theorem Sound.turns_flushKind (h : c.Sound) (thread : Nat) (k : Kind) :
    Turns k c (c.flushKind thread k).2 fun p =>
      (c.at? k p).bind fun n => (Store.withoutScope (c.caller thread).scope n).kept := by
  have hy := Store.yields_flush (h k).toConsistent (c.caller thread).scope
  exact h.turns_withStore ((h k).flush (c.caller thread).scope) hy.at?_eq

end Container

end ParamStore
