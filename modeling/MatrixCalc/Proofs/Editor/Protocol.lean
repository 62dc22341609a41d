/-
**What was published last is about the text as it is.**

A client introduces itself first if it does, changes and saves open documents only, and sends settings as they are
meant to be.  The delays that the server starts pass whenever they do, and documents that are not open may have any
text in the workspace at any time.  Whatever the order, a document has one delay at most, and the last reports about
an open one are those of its text, evaluated with the settings as they are,
unless a delay of it is running, or its last change has come while texts were not evaluated during changes, and
it was neither saved since then nor were settings sent.  Nothing is published for a document that has been closed
until it is opened again.

Main definitions:

* `MatrixCalc.Editor.IsOpen` — a document is open behind some events;
* `MatrixCalc.Editor.IsWellTyped`, `MatrixCalc.Editor.Event.Allowed`, `MatrixCalc.Editor.Follows` — what a client
  may send;
* `MatrixCalc.Editor.IsAnnounced` — the server has been made to look at the last change of a document;
* `MatrixCalc.Editor.Tells` — what holds behind some events.

Main results:

* `MatrixCalc.Editor.isOpen_concat`, `MatrixCalc.Editor.isAnnounced_concat`,
  `MatrixCalc.Editor.isAnnounced_changed` — one event more;
* `MatrixCalc.Editor.Tells.concat`, `MatrixCalc.Editor.Follows.tells` — one step keeps what holds, and so it holds
  behind all events;
* `MatrixCalc.Editor.Follows.settles` — **what was published last is about the text as it is**.
-/

import MatrixCalc.Proofs.Editor.Published

set_option autoImplicit false

namespace MatrixCalc

namespace Editor

variable {w : Workspace} {es : List Event} {event : Event} {uri : String}

/-! ### What a client may send -/

/-- A document has been opened by some events, and not been closed since. -/
def IsOpen (es : List Event) (uri : String) : Prop :=
  ∃ before source after, es = before ++ Event.opened uri source :: after ∧ Event.closed uri ∉ after

/-- Settings as they are meant to be: the tolerance, if it is among them, stands for a finite number, and the choice
about changes is a truth value. -/
structure IsWellTyped (fields : List (String × ClientValue)) : Prop where
  tolerance : ∀ v, fields.lookup Settings.toleranceKey = some v →
    ∃ x, v.number? = .ok (some x) ∧ x.isFinite = true
  onChange : ∀ v, fields.lookup Settings.onChangeKey = some v → ∃ b, v = .flag b

/-- What a client may send behind some events. -/
def Event.Allowed (es : List Event) : Event → Prop
  | .initialized options => es = [] ∧ IsWellTyped options.fields
  | .changed uri _ => IsOpen es uri
  | .saved uri => IsOpen es uri
  | .configured configuration => IsWellTyped (Settings.sectionOf configuration)
  | _ => True

/-- All events are allowed where they stand. -/
def Follows (es : List Event) : Prop :=
  ∀ before event after, es = before ++ event :: after → event.Allowed before

/-- The server has been made to look at the last change of a document: texts were evaluated during changes then, or
the document was saved or settings were sent since. -/
def IsAnnounced (w : Workspace) (es : List Event) (uri : String) : Prop :=
  ∀ before source after, es = before ++ Event.changed uri source :: after →
    (∀ source', Event.changed uri source' ∉ after ∧ Event.opened uri source' ∉ after) →
    ((Server.start w).handleAll before).1.settings.evaluateOnChange = true ∨ Event.saved uri ∈ after ∨
      ∃ configuration, Event.configured configuration ∈ after

/-! ### One event more -/

/-- What is somewhere in a list with one thing more is that one, or somewhere in the list. -/
theorem eq_append_cons_of_concat {α : Type} {xs before after : List α} {x y : α}
    (h : xs ++ [x] = before ++ y :: after) :
    after = [] ∧ xs = before ∧ x = y ∨ ∃ after', after = after' ++ [x] ∧ xs = before ++ y :: after' := by
  rcases List.eq_nil_or_concat' after with rfl | ⟨after', z, rfl⟩
  · obtain ⟨hxs, hx⟩ := List.append_inj' h rfl
    exact .inl ⟨rfl, hxs, List.singleton_inj.1 hx⟩
  · have h' : xs ++ [x] = before ++ y :: after' ++ [z] := by simpa using h
    obtain ⟨hxs, hx⟩ := List.append_inj' h' rfl
    exact .inr ⟨after', by rw [List.singleton_inj.1 hx], hxs⟩

/-- A document is open behind one event more if that opens it, or it was open and that does not close it. -/
theorem isOpen_concat :
    IsOpen (es ++ [event]) uri ↔ (∃ source, event = .opened uri source) ∨ IsOpen es uri ∧ event ≠ .closed uri := by
  constructor
  · rintro ⟨before, source, after, hes, hclosed⟩
    rcases eq_append_cons_of_concat hes with ⟨-, -, hevent⟩ | ⟨after', rfl, hes'⟩
    · exact .inl ⟨source, hevent⟩
    · rw [List.mem_append, List.mem_singleton, not_or] at hclosed
      exact .inr ⟨⟨before, source, after', hes', hclosed.1⟩, fun hevent => hclosed.2 hevent.symm⟩
  · rintro (⟨source, rfl⟩ | ⟨⟨before, source, after, rfl, hclosed⟩, hevent⟩)
    · exact ⟨es, source, [], rfl, List.not_mem_nil⟩
    · refine ⟨before, source, after ++ [event], by simp, ?_⟩
      rw [List.mem_append, List.mem_singleton, not_or]
      exact ⟨hclosed, fun h => hevent h.symm⟩

theorem not_isOpen_nil (uri : String) : ¬ IsOpen [] uri := by
  rintro ⟨before, source, after, hes, -⟩
  simp at hes

/-- A document that has been closed is not open until it is opened again. -/
theorem not_isOpen_of_closed {before after : List Event} (hopened : ∀ source, Event.opened uri source ∉ after) :
    ¬ IsOpen (before ++ Event.closed uri :: after) uri := by
  induction after using List.reverseRecOn with
  | nil =>
      rw [isOpen_concat]
      rintro (⟨source, h⟩ | ⟨-, h⟩)
      · cases h
      · exact h rfl
  | append_singleton after event ih =>
      rw [← List.cons_append, ← List.append_assoc, isOpen_concat]
      rintro (⟨source, rfl⟩ | ⟨h, -⟩)
      · exact hopened source (by simp)
      · exact ih (fun source hsource => hopened source (List.mem_append_left _ hsource)) h

theorem Follows.concat (h : Follows (es ++ [event])) : Follows es ∧ event.Allowed es := by
  refine ⟨?_, h es event [] rfl⟩
  rintro before event' after rfl
  exact h before event' (after ++ [event]) (by simp)

theorem Follows.of_concat (h : Follows es) (hallowed : event.Allowed es) : Follows (es ++ [event]) := by
  intro before event' after hes
  rcases eq_append_cons_of_concat hes with ⟨-, rfl, rfl⟩ | ⟨after', -, hes'⟩
  · exact hallowed
  · exact h before event' after' hes'

/-- Whether an event is about the change of a document or its evaluation. -/
def Event.Concerns (uri : String) : Event → Prop
  | .opened uri' _ => uri' = uri
  | .changed uri' _ => uri' = uri
  | .saved uri' => uri' = uri
  | .configured _ => True
  | _ => False

/-- An event that does not concern a document does not make the server look at it, and there is nothing new to look
at. -/
theorem isAnnounced_concat (hevent : ¬ event.Concerns uri) :
    IsAnnounced w (es ++ [event]) uri ↔ IsAnnounced w es uri := by
  constructor
  · rintro h before source after rfl hlast
    have hmem (e : Event) (he : e.Concerns uri) (h : e ∈ after ++ [event]) : e ∈ after := by
      rcases List.mem_append.1 h with h | h
      · exact h
      · rw [List.mem_singleton.1 h] at he
        exact absurd he hevent
    have hlast' (source' : String) :
        Event.changed uri source' ∉ after ++ [event] ∧ Event.opened uri source' ∉ after ++ [event] :=
      ⟨fun h => (hlast source').1 (hmem _ rfl h), fun h => (hlast source').2 (hmem _ rfl h)⟩
    rcases h before source (after ++ [event]) (by simp) hlast' with h | h | ⟨configuration, h⟩
    · exact .inl h
    · exact .inr (.inl (hmem _ rfl h))
    · exact .inr (.inr ⟨configuration, hmem _ trivial h⟩)
  · intro h before source after hes hlast
    rcases eq_append_cons_of_concat hes with ⟨-, -, rfl⟩ | ⟨after', rfl, hes'⟩
    · exact absurd rfl hevent
    · have hleft {e : Event} (he : e ∈ after') : e ∈ after' ++ [event] := List.mem_append_left _ he
      have hlast' (source' : String) : Event.changed uri source' ∉ after' ∧ Event.opened uri source' ∉ after' :=
        ⟨fun h => (hlast source').1 (hleft h), fun h => (hlast source').2 (hleft h)⟩
      rcases h before source after' hes' hlast' with h | h | ⟨configuration, h⟩
      · exact .inl h
      · exact .inr (.inl (hleft h))
      · exact .inr (.inr ⟨configuration, hleft h⟩)

/-- A document that has just been changed is announced if texts are evaluated during changes. -/
theorem isAnnounced_changed {source : String} :
    IsAnnounced w (es ++ [Event.changed uri source]) uri ↔
      ((Server.start w).handleAll es).1.settings.evaluateOnChange = true := by
  constructor
  · intro h
    rcases h es source [] rfl (fun source' => ⟨List.not_mem_nil, List.not_mem_nil⟩) with h | h | ⟨_, h⟩
    · exact h
    · cases h
    · cases h
  · intro h before source' after hes hlast
    rcases eq_append_cons_of_concat hes with ⟨-, rfl, -⟩ | ⟨after', rfl, -⟩
    · exact .inl h
    · exact absurd (List.mem_append_right _ (List.mem_singleton_self _)) (hlast source).1

/-- The server behind one event more. -/
theorem Server.handleAll_concat (s : Server) (es : List Event) (event : Event) :
    (s.handleAll (es ++ [event])).1 = ((s.handleAll es).1.handle event).server ∧
      (s.handleAll (es ++ [event])).2.published =
        (s.handleAll es).2.published ++ ((s.handleAll es).1.handle event).effects.published := by
  induction es generalizing s with
  | nil => exact ⟨rfl, by simp [handleAll]⟩
  | cons e es ih =>
      obtain ⟨hserver, hpublished⟩ := ih (s.handle e).server
      refine ⟨hserver, ?_⟩
      simp only [List.cons_append, handleAll, Effects.published_append, hpublished, List.append_assoc]

/-- The server behind some events and then others. -/
theorem Server.handleAll_append (s : Server) (es es' : List Event) :
    (s.handleAll (es ++ es')).1 = ((s.handleAll es).1.handleAll es').1 := by
  induction es generalizing s with
  | nil => rfl
  | cons e es ih => exact ih (s.handle e).server

/-- Settings as they are meant to be can be used. -/
theorem IsWellTyped.exists_configure {fields : List (String × ClientValue)} (h : IsWellTyped fields) (s : Server) :
    ∃ t, s.configure fields = .ok t := by
  have htolerance : ∃ settings, s.settings.applyTolerance fields = .ok settings := by
    unfold Settings.applyTolerance
    split
    · exact ⟨_, rfl⟩
    · next v hv =>
        obtain ⟨x, hx, -⟩ := h.tolerance v hv
        exact ⟨_, by rw [hx]; rfl⟩
  obtain ⟨settings, hsettings⟩ := htolerance
  exact ⟨_, by rw [Server.configure, Settings.apply, hsettings]; rfl⟩

/-! ### The invariant -/

/-- What holds behind some events: what the server keeps fits together, its documents are the open ones, and those
that are announced are up to date, but for delays. -/
structure Tells (w : Workspace) (es : List Event) : Prop where
  kept : ((Server.start w).handleAll es).1.IsKept
  knows : ∀ uri, ((Server.start w).handleAll es).1.Knows uri ↔ IsOpen es uri
  told : ((Server.start w).handleAll es).1.IsTold (IsAnnounced w es) ((Server.start w).handleAll es).2.published

theorem tells_nil : Tells w [] where
  kept := Server.isKept_start w
  knows uri := iff_of_false Bool.false_ne_true (not_isOpen_nil uri)
  told _ hknows := absurd hknows Bool.false_ne_true

namespace Tells

theorem accepts (h : Tells w es) (hallowed : event.Allowed es) : ((Server.start w).handleAll es).1.Accepts event := by
  cases event with
  | changed uri source => exact (h.knows uri).2 hallowed
  | saved uri => exact (h.knows uri).2 hallowed
  | _ => trivial

/-- The documents that are announced behind one event more are up to date, but for delays. -/
theorem told_concat (h : Tells w es) (hallowed : event.Allowed es) :
    (((Server.start w).handleAll es).1.handle event).server.IsTold (IsAnnounced w (es ++ [event]))
      (((Server.start w).handleAll es).2.published ++
        (((Server.start w).handleAll es).1.handle event).effects.published) := by
  have hkept := h.kept
  have htold := h.told
  have hother (uri : String) (hdue : IsAnnounced w (es ++ [event]) uri) (hevent : ¬ event.Concerns uri) :
      IsAnnounced w es uri := (isAnnounced_concat hevent).1 hdue
  have hchange (uri source : String) (hevent : event = .changed uri source)
      (hdue : IsAnnounced w (es ++ [event]) uri) :
      ((Server.start w).handleAll es).1.settings.evaluateOnChange = true := isAnnounced_changed.1 (hevent ▸ hdue)
  have hknows := h.knows
  generalize ((Server.start w).handleAll es).2.published = ps at *
  generalize ((Server.start w).handleAll es).1 = s at *
  cases event with
  | initialized options =>
      -- there is no document yet
      obtain ⟨t, ht⟩ := hallowed.2.exists_configure s
      intro uri huri
      rw [Server.handle, ht] at huri
      have huri' : s.Knows uri := (Server.knows_of_documents_eq (hkept.configure ht).2 uri).1 huri
      rw [hknows, hallowed.1] at huri'
      exact absurd huri' (not_isOpen_nil uri)
  | opened uri source =>
      refine (htold.opened hkept.sound uri source).mono fun uri' _ hdue => ?_
      by_cases huri : uri' = uri
      · exact .inl huri
      · exact .inr (hother uri' hdue (Ne.symm huri))
  | changed uri source =>
      have hchanged := htold.changed hkept uri source
      rw [Server.handle, Server.silent, Effects.published_none, List.append_nil]
      refine hchanged.mono fun uri' _ hdue => ⟨?_, fun huri => hother uri' hdue (Ne.symm huri)⟩
      rintro rfl
      exact hchange uri' source rfl hdue
  | saved uri =>
      refine (htold.revalidate hkept.sound uri).mono fun uri' _ hdue => ?_
      by_cases huri : uri' = uri
      · exact .inl huri
      · exact .inr (hother uri' hdue (Ne.symm huri))
  | closed uri => exact (htold.closed hkept uri).mono fun uri' _ hdue => hother uri' hdue id
  | configured configuration =>
      obtain ⟨t, ht⟩ := hallowed.exists_configure s
      have hkept' := (hkept.configure ht).1
      obtain ⟨-, hdocuments, -, huptodate⟩ :=
        hkept'.forEach_revalidate (fun uri huri => (hkept'.mem_names uri).1 huri) ps
      rw [Server.handle, ht]
      intro uri huri _ _
      have hnames := (hkept'.mem_names uri).2 ((Server.knows_of_documents_eq hdocuments uri).1 huri)
      exact huptodate uri (.inl hnames)
  | hovered uri line character =>
      rw [Server.handle, Effects.published_none, List.append_nil]
      exact htold.mono fun uri' _ hdue => hother uri' hdue id
  | stored workspace =>
      rw [Server.handle, Server.silent, Effects.published_none, List.append_nil]
      exact (htold.stored workspace).mono fun uri' _ hdue => hother uri' hdue id
  | fired number => exact (htold.fire hkept number).mono fun uri' _ hdue => hother uri' hdue id
  | settled =>
      have hfire (t : Server) (ps : List Publication) (number : Nat)
          (ht : t.IsKept ∧ t.IsTold (IsAnnounced w es) ps) : (t.fire number).1.IsKept ∧
            (t.fire number).1.IsTold (IsAnnounced w es) (ps ++ (t.fire number).2.published) :=
        ⟨ht.1.fire number, ht.2.fire ht.1 number⟩
      have hsettled := (Server.forEach_accumulates hfire ⟨hkept, htold⟩ (s.delays.map Delay.number)).2
      exact hsettled.mono fun uri' _ hdue => hother uri' hdue id

/-- **One step keeps what holds.** -/
theorem concat (h : Tells w es) (hallowed : event.Allowed es) : Tells w (es ++ [event]) := by
  obtain ⟨hserver, hpublished⟩ := (Server.start w).handleAll_concat es event
  obtain ⟨hkept, hknows, -⟩ := h.kept.handle (h.accepts hallowed)
  refine ⟨by rwa [hserver], fun uri => ?_, ?_⟩
  · rw [hserver, hknows, h.knows, isOpen_concat]
  · rw [hserver, hpublished]
    exact h.told_concat hallowed

end Tells

namespace Follows

/-- **The invariant holds behind all events.** -/
theorem tells (h : Follows es) : Tells w es := by
  induction es using List.reverseRecOn with
  | nil => exact tells_nil
  | append_singleton es event ih => exact (ih h.concat.1).concat h.concat.2

/-- Once a document has been closed nothing is published for it, but that it has no reports if it is closed again. -/
theorem of_mem_published {before after : List Event} (h : Follows (before ++ Event.closed uri :: after))
    (hopened : ∀ source, Event.opened uri source ∉ after) {p : Publication}
    (hp : p ∈ ((((Server.start w).handleAll before).1.handle (.closed uri)).server.handleAll after).2.published)
    (huri : p.uri = uri) : Event.closed uri ∈ after ∧ p.reports = [] := by
  induction after using List.reverseRecOn with
  | nil => cases hp
  | append_singleton after event ih =>
      have hnot : ¬ IsOpen (before ++ Event.closed uri :: after ++ [event]) uri := by
        simpa using not_isOpen_of_closed hopened
      obtain ⟨hbefore, hallowed⟩ : Follows (before ++ Event.closed uri :: after) ∧ event.Allowed _ :=
        concat (by simpa using h)
      rw [(Server.handleAll_concat _ after event).2, List.mem_append] at hp
      rcases hp with hp | hp
      · obtain ⟨hclosed, hreports⟩ :=
          ih hbefore (fun source hsource => hopened source (List.mem_append_left _ hsource)) hp
        exact ⟨List.mem_append_left _ hclosed, hreports⟩
      · have hserver : ((((Server.start w).handleAll before).1.handle (.closed uri)).server.handleAll after).1 =
            ((Server.start w).handleAll (before ++ Event.closed uri :: after)).1 :=
          ((Server.start w).handleAll_append before (.closed uri :: after)).symm
        rw [hserver] at hp
        have htells : Tells w (before ++ Event.closed uri :: after) := hbefore.tells
        obtain ⟨-, hknows, hpublished⟩ := htells.kept.handle (htells.accepts hallowed)
        rcases hpublished p hp with hevent | hopen
        · rw [huri] at hevent
          obtain rfl := hevent
          obtain rfl : p = ⟨uri, []⟩ := List.mem_singleton.1 hp
          exact ⟨by simp, rfl⟩
        · rw [hknows, htells.knows, huri, ← isOpen_concat] at hopen
          exact absurd hopen hnot

/-- **What was published last is about the text as it is.**  Behind all that a client may send, with the delays that
have passed in between:

* no two delays that are running are of the same document, and for one that is not open there is none, and no
  evaluation is kept;
* a document that has been closed, and not been opened since, had no reports then, and nothing has been published
  for it since, but that it has none if it was closed again;
* the last reports about an open document are those of its text, evaluated from the start with the settings as they
  are, unless a delay of it is running, or the server has not been made to look at its last change. -/
theorem settles (w : Workspace) (h : Follows es) :
    let r := (Server.start w).handleAll es
    ((r.1.delays.map Delay.uri).Nodup ∧
      ∀ uri, ¬ IsOpen es uri → (∀ d ∈ r.1.delays, d.uri ≠ uri) ∧ r.1.cache.get? uri = none) ∧
    (∀ before uri after, es = before ++ Event.closed uri :: after → (∀ source, Event.opened uri source ∉ after) →
      let step := ((Server.start w).handleAll before).1.handle (.closed uri)
      ¬ IsOpen es uri ∧ step.effects.published = [⟨uri, []⟩] ∧
        ∀ p ∈ (step.server.handleAll after).2.published, p.uri = uri → Event.closed uri ∈ after ∧ p.reports = []) ∧
    ∀ uri, IsOpen es uri → IsAnnounced w es uri → (∀ d ∈ r.1.delays, d.uri ≠ uri) →
      ∃ p, lastFor? uri r.2.published = some p ∧ p.IsFresh r.1.settings (r.1.document uri) := by
  intro r
  have htells : Tells w es := h.tells
  refine ⟨⟨htells.kept.noted.nodup_uri, fun uri hnot => ⟨?_, ?_⟩⟩, ?_, ?_⟩
  · rintro d hd rfl
    exact hnot ((htells.knows d.uri).1 (htells.kept.knows d hd))
  · rw [← htells.knows, ← htells.kept.cached, Option.not_isSome_iff_eq_none] at hnot
    exact hnot
  · rintro before uri after rfl hopened
    exact ⟨not_isOpen_of_closed hopened, rfl, fun p hp huri => h.of_mem_published hopened hp huri⟩
  · intro uri hopen hannounced hdelays
    exact htells.told uri ((htells.knows uri).2 hopen) hannounced hdelays

/-! ### A change whose delay has passed -/

/-- A client that has texts evaluated during changes introduces itself, and opens a document. -/
def untilOpened : List Event :=
  [.initialized (.record [(Settings.onChangeKey, .flag true)]), .opened "a" "x = 1"]

/-- It changes the document twice, and the delays pass, of which the first one has been stopped. -/
def untilFired : List Event :=
  untilOpened ++ [Event.changed "a" "x = 2", .changed "a" "x = 3", .fired 0, .fired 1]

theorem isOpen_untilOpened : IsOpen untilOpened "a" :=
  ⟨[_], "x = 1", [], rfl, List.not_mem_nil⟩

theorem isOpen_untilFired : IsOpen untilFired "a" :=
  ⟨[_], "x = 1", _, rfl, by simp⟩

theorem follows_untilFired : Follows untilFired := by
  have hfields : IsWellTyped [(Settings.onChangeKey, .flag true)] := by
    refine ⟨fun v hv => ?_, fun v hv => ⟨true, ?_⟩⟩
    · have hnone : [(Settings.onChangeKey, ClientValue.flag true)].lookup Settings.toleranceKey = none := rfl
      rw [hnone] at hv
      cases hv
    · exact (Option.some.inj hv).symm
  have hnil : Follows [] := fun before event after hes => by simp at hes
  have hinitialized : Follows [.initialized (.record [(Settings.onChangeKey, .flag true)])] :=
    hnil.of_concat ⟨rfl, hfields⟩
  have hopened : Follows untilOpened := hinitialized.of_concat trivial
  have hchanged : Follows (untilOpened ++ [Event.changed "a" "x = 2"]) := hopened.of_concat isOpen_untilOpened
  have hchanged' : Follows (untilOpened ++ [Event.changed "a" "x = 2", .changed "a" "x = 3"]) :=
    hchanged.of_concat ⟨[_], "x = 1", [Event.changed "a" "x = 2"], rfl, by simp⟩
  have hfired : Follows (untilOpened ++ [Event.changed "a" "x = 2", .changed "a" "x = 3", .fired 0]) :=
    hchanged'.of_concat trivial
  exact hfired.of_concat trivial

/-- Texts are evaluated during changes then, and the second delay has ended the first one. -/
theorem handleAll_untilFired (w : Workspace) :
    ((Server.start w).handleAll (untilOpened ++ [Event.changed "a" "x = 2"])).1.settings.evaluateOnChange = true ∧
      ((Server.start w).handleAll untilFired).1.delays = [] ∧
      ((Server.start w).handleAll untilFired).1.documents.get? "a" = some "x = 3" := by
  let on : Server := { Server.start w with settings := ⟨0, true, by decide⟩ }
  obtain ⟨cache, hcache⟩ := Server.exists_validate_eq (on.withDocument "a" "x = 1") "a" "x = 1"
  have hopened : ((Server.start w).handleAll untilOpened).1 = (on.withDocument "a" "x = 1").withCache cache := hcache
  let changed : Server := (((on.withDocument "a" "x = 1").withCache cache).handle (.changed "a" "x = 2")).server
  let changed' : Server := (changed.handle (.changed "a" "x = 3")).server
  obtain ⟨cache', hcache'⟩ := Server.exists_validate_eq changed' "a" (changed'.document "a")
  have hfired : ((Server.start w).handleAll untilFired).1 =
      { (changed'.validate "a" (changed'.document "a")).1 with
        timers := (changed'.validate "a" (changed'.document "a")).1.timers.erase "a"
        delays := Server.without (changed'.validate "a" (changed'.document "a")).1.delays 1 } := by
    rw [untilFired, Server.handleAll_append, hopened]
    rfl
  rw [Server.handleAll_append, hfired, hopened, hcache']
  exact ⟨rfl, rfl, rfl⟩

theorem settles_untilFired :
    let w := Workspace.ofFiles fun _ => ""
    let r := (Server.start w).handleAll untilFired
    Follows untilFired ∧ IsOpen untilFired "a" ∧ IsAnnounced w untilFired "a" ∧ r.1.delays = [] ∧
      ∃ p, lastFor? "a" r.2.published = some p ∧ p.IsFresh r.1.settings "x = 3" := by
  intro w r
  obtain ⟨hon, hdelays, hdocument⟩ := handleAll_untilFired w
  have hchanged : IsAnnounced w (untilOpened ++ [Event.changed "a" "x = 2"] ++ [Event.changed "a" "x = 3"]) "a" :=
    isAnnounced_changed.2 hon
  have hannounced : IsAnnounced w untilFired "a" := by
    have hfired : IsAnnounced w (_ ++ [Event.fired 0]) "a" := (isAnnounced_concat id).2 hchanged
    exact (isAnnounced_concat id).2 hfired
  obtain ⟨p, hp, hfresh⟩ := (settles w follows_untilFired).2.2 "a" isOpen_untilFired hannounced (by simp [hdelays])
  rw [Server.document_of_get? hdocument] at hfresh
  exact ⟨follows_untilFired, isOpen_untilFired, hannounced, hdelays, p, hp, hfresh⟩

end Follows

end Editor

end MatrixCalc
