import HighlightSync.Proofs.Asking
import HighlightSync.Proofs.MoveClosure

/-!
# Sweeping a region

A region is a finite list of spots that is closed under the links on its handlers. In a
region that is `Layout.Sweepable` these handlers have no listeners but views that only ask and
links of live translators, whose mappers answer by the key alone, run nothing and never fail.
Nothing is asked of listeners, mappers and links elsewhere, so this is about a part of a
wiring that otherwise does what it likes.

What work of a cascade does to a region is a relation between the world in which it begins
and the world in which it ends (`World.Swept`). The relation composes (`Swept.trans`), and
`World.left` counts the ripe spots of the region, which only ever become fewer.
-/

namespace HighlightSync

/-- The mapper answers by the key alone, runs nothing and never fails. -/
def MapperState.Pure (s : MapperState) : Prop :=
  (∀ n k, s.script n k = []) ∧ ∃ f : Key → Option KeySet, ∀ n k, s.answer n k = .ok (f k)

theorem MapperState.pure_table (table : KeyTable) : (MapperState.ofSpec (.table table)).Pure :=
  ⟨fun _ _ => rfl, table.find?, fun _ _ => rfl⟩

namespace Layout

/-- The mapper with an identity is pure. -/
def Pure (L : Layout) (m : MapperId) : Prop := ∀ s, L.mapper m = some s → s.Pure

/-- The spots are closed under the links on their handlers, which exist, and nobody who is
registered there does anything else. -/
structure Sweepable (L : Layout) (region : List Spot) : Prop where
  closed : ∀ x ∈ region, ∀ y, L.Leads x y → y ∈ region
  present : ∀ x ∈ region, (L.handler x.1).isSome = true
  views : ∀ x ∈ region, ∀ name, .view name ∈ L.listeners x.1 → L.Asks name
  links : ∀ x ∈ region, ∀ l ∈ L.listeners x.1, ∀ t, l.owner? = some t → L.isLive t = true
  mappers : ∀ x ∈ region, ∀ t s m, .sourceLink t ∈ L.listeners x.1 → L.translator? t = some s →
    s.mapper = some m → L.Pure m

/-- The given links are registered on a handler, and otherwise only views that only ask. -/
structure Attended (L : Layout) (h : HandlerId) (links : List Listener) : Prop where
  registered : ∀ l ∈ links, l ∈ L.listeners h
  others : ∀ l ∈ L.listeners h, l ∈ links ∨ ∃ name, l = .view name ∧ L.Asks name

/-- A link of a live translator, whose mapper is pure if it has one. -/
def Works (L : Layout) (l : Listener) : Prop :=
  ∃ t s, l.owner? = some t ∧ L.translator? t = some s ∧ s.live = true ∧
    ∀ m, s.mapper = some m → L.Pure m

theorem handler_isSome_of_mem {L : Layout} {h : HandlerId} {l : Listener}
    (mem : l ∈ L.listeners h) : (L.handler h).isSome = true := by
  cases absent : L.handler h with
  | none =>
      rw [listeners, absent] at mem
      cases mem
  | some s => rfl

namespace Attended

variable {L : Layout} {h : HandlerId} {links : List Listener}

theorem exists_passes (attended : L.Attended h links) {y : Option Key} {x : Spot}
    (leads : L.Leads (h, y) x) : ∃ l ∈ links, L.Passes l y x := by
  obtain ⟨l, mem, passes⟩ := leads
  obtain link | ⟨name, rfl, -⟩ := attended.others l mem
  · exact ⟨l, link, passes⟩
  · cases passes

theorem mem_of_owner (attended : L.Attended h links) {l : Listener} {t : TranslatorId}
    (mem : l ∈ L.listeners h) (owner : l.owner? = some t) : l ∈ links := by
  obtain link | ⟨name, rfl, -⟩ := attended.others l mem
  · exact link
  · cases owner

end Attended

/-- A region is sweepable that is closed, when links that work stand on its handlers and
otherwise only views that only ask. -/
theorem Sweepable.of_attended {L : Layout} {region : List Spot}
    (closed : ∀ x ∈ region, ∀ y, L.Leads x y → y ∈ region)
    (attended : ∀ x ∈ region, ∃ links, L.Attended x.1 links ∧ (∃ l, l ∈ links) ∧
      ∀ l ∈ links, L.Works l) : L.Sweepable region where
  closed := closed
  present x inside := by
    obtain ⟨links, here, ⟨l, link⟩, -⟩ := attended x inside
    exact handler_isSome_of_mem (here.registered l link)
  views x inside name mem := by
    obtain ⟨links, here, -, works⟩ := attended x inside
    obtain link | ⟨name', same, asks⟩ := here.others _ mem
    · obtain ⟨t, s, owner, -⟩ := works _ link
      cases owner
    · cases same
      exact asks
  links x inside l mem t owner := by
    obtain ⟨links, here, -, works⟩ := attended x inside
    obtain ⟨t', s, owner', found, live, -⟩ := works l (here.mem_of_owner mem owner)
    cases owner.symm.trans owner'
    exact (Option.any_eq_true _ _).mpr ⟨s, found, live⟩
  mappers x inside t s m mem found mapper := by
    obtain ⟨links, here, -, works⟩ := attended x inside
    obtain ⟨t', s', owner, found', -, pure⟩ := works _ (here.mem_of_owner mem rfl)
    cases owner
    cases found.symm.trans found'
    exact pure m mapper

end Layout

theorem Change.Proper.exists_touched {c : Change} {s : KeySet} (proper : c.Proper s) :
    ∃ y, c.touches y = true := by
  cases c with
  | reset => exact ⟨none, rfl⟩
  | move d keys =>
      obtain ⟨k, hk⟩ := KeySet.exists_mem proper.1
      exact ⟨some k, decide_eq_true hk⟩

namespace World

instance (κ : ChangeKind) (w : World) (x : Spot) : Decidable (w.Ripe κ x) :=
  inferInstanceAs (Decidable (κ.Ripe (w.keysOf x.1) x.2))

/-- How many spots of a region are ripe. -/
def left (κ : ChangeKind) (region : List Spot) (w : World) : Nat :=
  region.countP fun x => decide (w.Ripe κ x)

/-- What work of a cascade may do to a region. Ripe spots become fewer, in the region alone,
and a handler keeps its keys if its spots stay ripe. If no call is refused meanwhile, the
spots that were offered are ripe no longer, nor is any to which a visited spot leads. -/
structure Swept (κ : ChangeKind) (region : List Spot) (offered : Spot → Prop) (w v : World) :
    Prop where
  layout : v.layout = w.layout
  refusals : w.refusals ≤ v.refusals
  shrinks : ∀ x, v.Ripe κ x → w.Ripe κ x
  inside : ∀ x, w.Ripe κ x → ¬ v.Ripe κ x → x ∈ region
  untouched : ∀ h, (∀ y, w.Ripe κ (h, y) → v.Ripe κ (h, y)) → v.keysOf h = w.keysOf h
  done : v.refusals = w.refusals → ∀ x, offered x → ¬ v.Ripe κ x
  closed : v.refusals = w.refusals → ∀ x y, w.Ripe κ x → ¬ v.Ripe κ x → w.layout.Leads x y →
    ¬ v.Ripe κ y

/-- A property of worlds lasts if no call is refused meanwhile. -/
structure Upholds (P : World → Prop) (w v : World) : Prop where
  refusals : w.refusals ≤ v.refusals
  lasts : v.refusals = w.refusals → P w → P v

namespace Upholds

variable {P : World → Prop} {w v u : World}

theorem refl (w : World) : w.Upholds P w := ⟨Nat.le_refl _, fun _ hw => hw⟩

theorem trans (h : w.Upholds P v) (g : v.Upholds P u) : w.Upholds P u := by
  refine ⟨Nat.le_trans h.refusals g.refusals, fun unrefused hw => ?_⟩
  have before := h.refusals
  have after := g.refusals
  exact g.lasts (by omega) (h.lasts (by omega) hw)

end Upholds

theorem Unmoved.ripe_iff {w v : World} (same : w.Unmoved v) {κ : ChangeKind} {x : Spot} :
    v.Ripe κ x ↔ w.Ripe κ x := by
  rw [Ripe, same.keys, Ripe]

theorem Unmoved.left_le {w v : World} (same : w.Unmoved v) {κ : ChangeKind} {region : List Spot}
    {m : Nat} (few : w.left κ region ≤ m) : v.left κ region ≤ m := by
  simpa only [left, same.ripe_iff] using few

namespace Swept

variable {κ : ChangeKind} {region : List Spot} {offered first second : Spot → Prop}
variable {w v u : World}

theorem of_unmoved (same : w.Unmoved v) (nothing : ∀ x, offered x → ¬ w.Ripe κ x) :
    w.Swept κ region offered v where
  layout := same.layout
  refusals := Nat.le_of_eq same.refusals.symm
  shrinks _ := same.ripe_iff.mp
  inside _ ripe visited := absurd (same.ripe_iff.mpr ripe) visited
  untouched h _ := congrFun same.keys h
  done _ x hx ripe := nothing x hx (same.ripe_iff.mp ripe)
  closed _ _ _ ripe visited := absurd (same.ripe_iff.mpr ripe) visited

theorem of_refused (layout : v.layout = w.layout) (keys : v.keysOf = w.keysOf)
    (refused : w.refusals < v.refusals) : w.Swept κ region offered v := by
  have same : ∀ x, v.Ripe κ x ↔ w.Ripe κ x := fun x => by rw [Ripe, keys, Ripe]
  exact
    { layout, refusals := Nat.le_of_lt refused
      shrinks := fun x => (same x).mp
      inside := fun x ripe visited => absurd ((same x).mpr ripe) visited
      untouched := fun h _ => congrFun keys h
      done := fun none => absurd none (Nat.ne_of_gt refused)
      closed := fun none => absurd none (Nat.ne_of_gt refused) }

/-- Pieces of work one after the other do what was offered to either. -/
theorem trans (h : w.Swept κ region first v) (g : v.Swept κ region second u)
    (split : ∀ x, offered x → first x ∨ second x) : w.Swept κ region offered u := by
  have unrefused : u.refusals = w.refusals →
      v.refusals = w.refusals ∧ u.refusals = v.refusals := by
    have before := h.refusals
    have after := g.refusals
    omega
  refine
    { layout := g.layout.trans h.layout, refusals := Nat.le_trans h.refusals g.refusals
      shrinks := fun x ripe => h.shrinks x (g.shrinks x ripe), inside := ?_, untouched := ?_
      done := ?_, closed := ?_ }
  · intro x ripe visited
    by_cases between : v.Ripe κ x
    · exact g.inside x between visited
    · exact h.inside x ripe between
  · intro i stays
    rw [g.untouched i fun y ripe => stays y (h.shrinks _ ripe),
      h.untouched i fun y ripe => g.shrinks _ (stays y ripe)]
  · intro none x hx ripe
    obtain ⟨before, after⟩ := unrefused none
    exact (split x hx).elim (fun hx => h.done before x hx (g.shrinks x ripe))
      fun hx => g.done after x hx ripe
  · intro none x y ripe visited leads ripe'
    obtain ⟨before, after⟩ := unrefused none
    by_cases between : v.Ripe κ x
    · exact g.closed after x y between visited (h.layout ▸ leads) ripe'
    · exact h.closed before x y ripe between leads (g.shrinks y ripe')

theorem settles (h : w.Swept κ region offered v) (unrefused : v.refusals = w.refusals)
    {x y : Spot} (leads : w.layout.Leads x y) (before : ¬ w.Ripe κ x → ¬ w.Ripe κ y)
    (settled : ¬ v.Ripe κ x) : ¬ v.Ripe κ y := by
  by_cases ripe : w.Ripe κ x
  · exact h.closed unrefused x y ripe settled leads
  · exact fun ripe' => before ripe (h.shrinks y ripe')

theorem keysOf_eq (h : w.Swept .reset region offered v) {i : HandlerId}
    (stays : w.Ripe .reset (i, none) → v.Ripe .reset (i, none)) : v.keysOf i = w.keysOf i := by
  refine h.untouched i fun y ripe => ?_
  cases y with
  | none => exact stays ripe
  | some k => cases ripe

theorem mono (h : w.Swept κ region first v)
    (fewer : ∀ x, offered x → w.Ripe κ x → first x) : w.Swept κ region offered v :=
  { h with
    done := fun none x hx ripe => h.done none x (fewer x hx (h.shrinks x ripe)) ripe }

theorem idle (same : w.Unmoved v) : w.Swept κ region (fun _ => False) v :=
  of_unmoved same fun _ => False.elim

theorem unmoved_left (same : w.Unmoved v) (h : v.Swept κ region offered u) :
    w.Swept κ region offered u :=
  (idle same).trans h fun _ => .inr

theorem unmoved_right (h : w.Swept κ region offered v) (same : v.Unmoved u) :
    w.Swept κ region offered u :=
  h.trans (idle same) fun _ => .inl

theorem left_le (h : w.Swept κ region offered v) : v.left κ region ≤ w.left κ region :=
  List.countP_mono_left fun x _ ripe => decide_eq_true (h.shrinks x (of_decide_eq_true ripe))

end Swept

theorem left_lt {κ : ChangeKind} {region : List Spot} {w v : World}
    (shrinks : ∀ x, v.Ripe κ x → w.Ripe κ x) {x : Spot} (listed : x ∈ region)
    (ripe : w.Ripe κ x) (visited : ¬ v.Ripe κ x) : v.left κ region < w.left κ region := by
  have fewer : ∀ spots : List Spot, v.left κ spots ≤ w.left κ spots := fun spots =>
    List.countP_mono_left fun y _ ripe => decide_eq_true (shrinks y (of_decide_eq_true ripe))
  -- One occurrence of the spot counts before and not after; no other begins to count.
  obtain ⟨front, back, rfl⟩ := List.append_of_mem listed
  have first := fewer front
  have last := fewer back
  simp only [left, List.countP_append, List.countP_cons, ripe, visited, decide_true,
    decide_false, if_true] at first last ⊢
  simp only [Bool.false_eq_true, if_false]
  omega

section

variable {κ : ChangeKind} {region : List Spot} {w v u : World} {h : HandlerId} {c : Change}
variable (present : (w.handler? h).isSome = true) (kind : c.kind = κ)
variable (proper : c.Proper (w.keysOf h))

include present kind proper

theorem left_change_lt {y : Option Key} (touched : c.touches y = true) (inside : (h, y) ∈ region)
    (changed : v.keysOf = (w.change h c).keysOf) : v.left κ region < w.left κ region := by
  have ripe_iff : ∀ {x}, v.Ripe κ x ↔ w.Ripe κ x ∧ ¬ (x.1 = h ∧ c.touches x.2 = true) :=
    ripe_change_iff present kind changed
  exact left_lt (fun x ripe => (ripe_iff.mp ripe).1) inside (kind ▸ proper.ripe touched)
    fun still => (ripe_iff.mp still).2 ⟨rfl, touched⟩

/-- A proper change in the region has been swept when all that it leads to has been. -/
theorem Swept.of_change (inside : ∀ y, c.touches y = true → (h, y) ∈ region)
    (changed : v.keysOf = (w.change h c).keysOf) (layout : v.layout = w.layout)
    (unrefused : v.refusals = w.refusals)
    (swept : v.Swept κ region (fun x => ∃ l ∈ w.layout.listeners h,
      ∃ y, c.touches y = true ∧ w.layout.Passes l y x) u) :
    w.Swept κ region (fun x => x.1 = h ∧ c.touches x.2 = true) u := by
  have ripe_iff : ∀ {x}, v.Ripe κ x ↔ w.Ripe κ x ∧ ¬ (x.1 = h ∧ c.touches x.2 = true) :=
    ripe_change_iff present kind changed
  -- What was ripe and is not any longer was touched by the change, or swept afterwards.
  have visited_cases : ∀ x, w.Ripe κ x → ¬ u.Ripe κ x →
      (v.Ripe κ x ∧ ¬ u.Ripe κ x) ∨ (x.1 = h ∧ c.touches x.2 = true) := by
    intro x before visited
    by_cases between : v.Ripe κ x
    · exact .inl ⟨between, visited⟩
    · exact .inr (Classical.not_not.mp fun other => between (ripe_iff.mpr ⟨before, other⟩))
  refine
    { layout := swept.layout.trans layout
      refusals := unrefused ▸ swept.refusals
      shrinks := fun x ripe => (ripe_iff.mp (swept.shrinks x ripe)).1, inside := ?_, untouched := ?_
      done := fun _ x touched still => (ripe_iff.mp (swept.shrinks x still)).2 touched
      closed := ?_ }
  · rintro ⟨g, z⟩ before visited
    obtain ⟨between, visited⟩ | ⟨rfl, here⟩ := visited_cases _ before visited
    · exact swept.inside _ between visited
    · exact inside z here
  · intro g stays
    have other : g ≠ h := by
      rintro rfl
      obtain ⟨y, touched⟩ := proper.exists_touched
      have still := stays y (kind ▸ proper.ripe touched)
      exact (ripe_iff.mp (swept.shrinks _ still)).2 ⟨rfl, touched⟩
    have keeps : u.keysOf g = v.keysOf g :=
      swept.untouched g fun z ripe => stays z (ripe_iff.mp ripe).1
    rw [keeps, changed, keysOf_change_of_ne c other]
  · rintro none ⟨g, z⟩ x before visited leads
    obtain ⟨between, visited⟩ | ⟨rfl, here⟩ := visited_cases _ before visited
    · exact swept.closed (none.trans unrefused.symm) _ x between visited (layout ▸ leads)
    · obtain ⟨l, registered, passes⟩ := leads
      exact swept.done (none.trans unrefused.symm) x ⟨l, registered, z, here, passes⟩

end

end World

end HighlightSync
