/-
**The language server.**

The server knows the text of every open document, and keeps for each document the last evaluation: its
variables and its diagnostics.  It reads documents from a workspace, which has a text for the ones that
are not open as well.  A document is evaluated when it is opened or saved, and after a change
once a delay has passed, if the settings ask for it; every change starts the delay anew.  Another
configuration has all evaluated documents evaluated again.  As long as neither the text nor the
tolerance has changed, the last evaluation stands and its diagnostics are published again.

A delay runs by itself.  The server notes for each document the number of the last delay that it has
started for it, and stops the delay of that number before it starts another one or forgets the document.

Main definitions:

* `MatrixCalc.Editor.Evaluation` — the last evaluation of a document;
* `MatrixCalc.Editor.Workspace` — where documents are read;
* `MatrixCalc.Editor.Delay` — a delay that is running;
* `MatrixCalc.Editor.Server` — the state of the server;
* `MatrixCalc.Editor.Effects` — what a step has made the server do;
* `MatrixCalc.Editor.Server.validate` — publishes the diagnostics of a text;
* `MatrixCalc.Editor.Event`, `MatrixCalc.Editor.Server.handle` — what can happen, and what the server
  does then.
-/

import MatrixCalc.Editor.Hover
import MatrixCalc.Editor.Settings
import MatrixCalc.Session

set_option autoImplicit false

namespace MatrixCalc

namespace Editor

/-! ### Evaluations -/

/-- The evaluation of a document: of which text, with which tolerance, and what it has given. -/
structure Evaluation where
  /-- The text. -/
  source : String
  zeroTolerance : Float
  /-- The variables behind the text. -/
  env : Env (Value Float)
  /-- What went wrong. -/
  diagnostics : List Diagnostic

/-- Evaluates a text from the start. -/
def evaluate (settings : Settings) (source : String) : Except Failure Evaluation :=
  let x := (Session.start settings.context).run source
  x.result.map fun r => ⟨source, settings.zeroTolerance, x.session.env, r.diagnostics⟩

/-- Whether an evaluation stands for a text with the tolerance of the settings.  Texts are told apart by
themselves here, as by hashes that never collide, and tolerances by how they are written, so zero and its
negative are two. -/
def Evaluation.standsFor (e : Evaluation) (settings : Settings) (source : String) : Bool :=
  e.source == source &&
    Decimal.roundTrip.write e.zeroTolerance == Decimal.roundTrip.write settings.zeroTolerance

/-- The reports of diagnostics about a text. -/
def reports (source : String) (ds : List Diagnostic) : List Report :=
  ds.map (Report.ofDiagnostic (Text.lines source.toList))

/-! ### The state of the server -/

/-- Where the server reads documents.  One that is open has the text that the client has sent for it;
which text there is for one that is not open is up to the workspace. -/
structure Workspace where
  /-- The text of a document, while the open documents have these texts. -/
  text : Bindings String → String → String
  /-- An open document has its own text. -/
  text_of_open : ∀ {documents : Bindings String} {uri source : String},
    documents.get? uri = some source → text documents uri = source

/-- The workspace that reads files for the documents that are not open. -/
def Workspace.ofFiles (files : String → String) : Workspace where
  text documents uri := (documents.get? uri).getD (files uri)
  text_of_open h := by rw [h, Option.getD_some]

/-- A delay that is running. -/
structure Delay where
  /-- Its number among all delays. -/
  number : Nat
  /-- The document that is evaluated when it has passed. -/
  uri : String
  deriving DecidableEq, Repr

/-- The state of the server.  Documents are named by their addresses. -/
structure Server where
  settings : Settings
  /-- Where documents are read. -/
  workspace : Workspace
  /-- The texts of the open documents. -/
  documents : Bindings String
  /-- The last evaluations. -/
  cache : Bindings Evaluation
  /-- The number of the delay that is noted for a document. -/
  timers : Bindings Nat
  /-- The delays that are running, in the order in which they were started. -/
  delays : List Delay
  /-- The number of delays that have been started. -/
  clock : Nat

/-- Reports that are published for a document. -/
structure Publication where
  /-- The address of the document. -/
  uri : String
  reports : List Report

/-- What a step has made the server do. -/
structure Effects where
  /-- What was published, in order. -/
  published : List Publication
  /-- How many texts were evaluated. -/
  evaluated : Nat

/-- Nothing was done. -/
def Effects.none : Effects := ⟨[], 0⟩

/-- One thing after the other was done. -/
def Effects.append (e f : Effects) : Effects :=
  ⟨e.published ++ f.published, e.evaluated + f.evaluated⟩

namespace Server

/-- A server that has just been started in a workspace. -/
def start (workspace : Workspace) : Server := ⟨.usual, workspace, .empty, .empty, .empty, [], 0⟩

/-- The text of a document, as the workspace has it. -/
def document (s : Server) (uri : String) : String := s.workspace.text s.documents uri

/-- Publishes reports for a document. -/
def publish (uri : String) (rs : List Report) (evaluated : Nat) : Effects := ⟨[⟨uri, rs⟩], evaluated⟩

/-- The last evaluation of a document, if it stands for a text. -/
def cached? (s : Server) (uri source : String) : Option Evaluation :=
  (s.cache.get? uri).filter fun e => e.standsFor s.settings source

/-- Publishes the diagnostics of a text for a document. -/
def validate (s : Server) (uri source : String) : Server × Effects :=
  match s.cached? uri source with
  | some e => (s, publish uri (reports source e.diagnostics) 0)
  | none => match evaluate s.settings source with
    | .ok e => ({ s with cache := s.cache.set uri e }, publish uri (reports source e.diagnostics) 1)
    | .error e => (s, publish uri [.internal e.message] 1)

/-- Publishes the diagnostics of a document as it is. -/
def revalidate (s : Server) (uri : String) : Server × Effects := s.validate uri (s.document uri)

/-- Does something for each of some documents or delays. -/
def forEach {α : Type} (f : Server → α → Server × Effects) : Server → List α → Server × Effects
  | s, [] => (s, .none)
  | s, x :: xs =>
      let r := f s x
      let r' := forEach f r.1 xs
      (r'.1, r.2.append r'.2)

/-- The delays without the one of a number. -/
def without (delays : List Delay) (number : Nat) : List Delay := delays.filter fun d => d.number != number

/-- The delay of a number has passed, unless it has been stopped. -/
def fire (s : Server) (number : Nat) : Server × Effects :=
  match s.delays.find? fun d => d.number == number with
  | none => (s, .none)
  | some d =>
      let r := s.revalidate d.uri
      ({ r.1 with timers := r.1.timers.erase d.uri, delays := without r.1.delays number }, r.2)

/-- All delays that are running have passed. -/
def settle (s : Server) : Server × Effects := forEach fire s (s.delays.map Delay.number)

/-- Stops the delay that is noted for a document, if one is. -/
def cancel (s : Server) (uri : String) : Server :=
  match s.timers.get? uri with
  | none => s
  | some number => { s with delays := without s.delays number }

/-- Starts the delay of a document anew, if the settings ask for it. -/
def schedule (s : Server) (uri : String) : Server :=
  if s.settings.evaluateOnChange then
    let t := s.cancel uri
    { t with
      timers := t.timers.set uri t.clock
      delays := t.delays ++ [⟨t.clock, uri⟩]
      clock := t.clock + 1 }
  else s

end Server

/-! ### Events -/

/-- What can happen to a server. -/
inductive Event where
  /-- The client introduces itself, and sends settings. -/
  | initialized (options : ClientValue)
  | opened (uri source : String)
  /-- The text of a document is changed. -/
  | changed (uri source : String)
  | saved (uri : String)
  | closed (uri : String)
  /-- The client sends another configuration. -/
  | configured (configuration : ClientValue)
  /-- The cursor rests at a place of a document. -/
  | hovered (uri : String) (line character : Int)
  /-- The workspace has other texts for documents that are not open. -/
  | stored (workspace : Workspace)
  /-- The delay of a number passes. -/
  | fired (number : Nat)
  /-- All delays pass. -/
  | settled

/-- What a server does about an event. -/
structure Step where
  /-- What is shown, or why the event could not be dealt with. -/
  result : Except SettingError (Option Hover)
  /-- The server behind the event. -/
  server : Server
  /-- What it was made to do. -/
  effects : Effects

namespace Server

/-- The step that shows nothing. -/
def silent (r : Server × Effects) : Step := ⟨.ok none, r.1, r.2⟩

/-- The server with the settings that a client sends. -/
def configure (s : Server) (fields : List (String × ClientValue)) : Except SettingError Server :=
  (s.settings.apply fields).map fun t => { s with settings := t }

/-- The server without a document. -/
def close (s : Server) (uri : String) : Server :=
  { s.cancel uri with
    documents := s.documents.erase uri
    cache := s.cache.erase uri
    timers := s.timers.erase uri }

/-- What the server does about an event. -/
def handle (s : Server) : Event → Step
  | .initialized options => match s.configure options.fields with
    | .error e => ⟨.error e, s, .none⟩
    | .ok s => silent (s, .none)
  | .opened uri source =>
      silent ({ s with documents := s.documents.set uri source }.validate uri source)
  | .changed uri source =>
      silent ({ s with documents := s.documents.set uri source }.schedule uri, .none)
  | .saved uri => silent (s.revalidate uri)
  | .closed uri => silent (s.close uri, publish uri [] 0)
  | .configured configuration => match s.configure (Settings.sectionOf configuration) with
    | .error e => ⟨.error e, s, .none⟩
    | .ok s => silent (forEach revalidate s s.cache.names)
  | .hovered uri line character =>
      let shown := match s.cache.get? uri with
        | none => none
        | some e => hover? e.env (s.document uri) line character
      ⟨.ok shown, s, .none⟩
  | .stored workspace => silent ({ s with workspace := workspace }, .none)
  | .fired number => silent (s.fire number)
  | .settled => silent s.settle

/-- The server behind some events, and all that they made it do. -/
def handleAll : Server → List Event → Server × Effects
  | s, [] => (s, .none)
  | s, e :: es =>
      let step := s.handle e
      let r := handleAll step.server es
      (r.1, step.effects.append r.2)

end Server

end Editor

end MatrixCalc
