import PluginManifest.Proofs.Independence
import Mathlib.Data.List.TakeWhile

/-! # Answers over whole sessions

What a session answers is told from the steps before alone, without its state:

* `latestAdded? key steps` is the file that was added last under a key;
* `versionNow name version steps` is the version that was set last for a scanner;
* `firstIndex` is the index at the first question to a scanner.

`Step.applied` says what one step does to one scanner, and `get?_scanners_after` what all the steps
since it was made have done.  So a scanner answers like a new one that is asked at the index of the
first question with the version of now (`answers_as_at_first_look`).  It makes no difference whether a
scanner keeps a flag for the look beside what it found (`FlaggedSession.run_eq`). -/

namespace PluginManifest

open Source Item

namespace Session

variable {parse : Parser}

/-! ### Steps in sequence -/

/-- The session after some steps. -/
def after (parse : Parser) (session : Session) (steps : List Step) : Session :=
  steps.foldl (fun session s => (session.step parse s).1) session

theorem after_append (session : Session) (before more : List Step) :
    session.after parse (before ++ more) = (session.after parse before).after parse more :=
  List.foldl_append

theorem after_concat (session : Session) (before : List Step) (s : Step) :
    session.after parse (before ++ [s]) = ((session.after parse before).step parse s).1 :=
  after_append session before [s]

theorem run_append (session : Session) (before more : List Step) :
    session.run parse (before ++ more) =
      session.run parse before ++ (session.after parse before).run parse more := by
  induction before generalizing session with
  | nil => rfl
  | cons s before ih =>
      rw [List.cons_append, run, run, List.cons_append]
      exact congrArg _ (ih _)

theorem length_run (session : Session) (steps : List Step) :
    (session.run parse steps).length = steps.length := by
  induction steps generalizing session with
  | nil => rfl
  | cons s steps ih => rw [run, List.length_cons, List.length_cons, ih]

/-- What a session that starts empty answers to a step after others. -/
def answerTo (parse : Parser) (history : List Step) (s : Step) : Answer :=
  ((empty.after parse history).step parse s).2

theorem getElem?_run (history : List Step) (s : Step) (rest : List Step) :
    (empty.run parse (history ++ s :: rest))[history.length]? = some (answerTo parse history s) := by
  have hlength : (empty.run parse history).length = history.length := length_run empty history
  rw [run_append, List.getElem?_append_right (by omega), hlength, Nat.sub_self]
  rfl

/-! ### Files -/

/-- The file that a step adds under a key. -/
def Step.addedAs? (parse : Parser) (key : Text) : Step → Option File
  | .add path text => if Index.key path = key then some (Index.read parse path text) else none
  | _ => none

/-- The file that was added last under a key. -/
def latestAdded? (parse : Parser) (key : Text) (steps : List Step) : Option File :=
  (steps.filterMap (Step.addedAs? parse key)).getLast?

theorem latestAdded?_concat (key : Text) (steps : List Step) (s : Step) :
    latestAdded? parse key (steps ++ [s]) =
      (s.addedAs? parse key).or (latestAdded? parse key steps) := by
  unfold latestAdded?
  rw [List.filterMap_append, List.getLast?_append]
  cases hs : s.addedAs? parse key with
  | none => simp [hs]
  | some file => simp [hs]

/-- Asking a scanner changes no file. -/
theorem index_ask (session : Session) (name : Text) (answer : FileScanner → Answer) :
    (session.ask name answer).1.index = session.index := by
  unfold ask
  cases Keyed.get? session.scanners name with
  | none => rfl
  | some scanner => rfl

theorem get?_index_step (session : Session) (s : Step) (path : Text) :
    (session.step parse s).1.index.get? path =
      (s.addedAs? parse (Index.key path)).or (session.index.get? path) := by
  cases s with
  | add p text =>
      have hread : (Index.read parse p text).path = Index.key p := rfl
      have hindex : (session.step parse (.add p text)).1.index =
          session.index.insert (Index.read parse p text) := rfl
      rw [hindex, Index.get?_insert, hread, Step.addedAs?]
      by_cases hkey : Index.key path = Index.key p
      · rw [if_pos hkey, if_pos hkey.symm, Option.some_or]
      · rw [if_neg hkey, if_neg (Ne.symm hkey), Option.none_or]
  | find p => rfl
  | scanner name p version => rfl
  | setVersion name version =>
      unfold step
      dsimp only
      cases Keyed.get? session.scanners name with
      | none => rfl
      | some scanner => rfl
  | widget name =>
      rw [step, index_ask]
      rfl
  | paymentGateways name =>
      rw [step, index_ask]
      rfl

/-- The index finds what was added last under the key of a path. -/
theorem get?_index_after (steps : List Step) (path : Text) :
    (empty.after parse steps).index.get? path = latestAdded? parse (Index.key path) steps := by
  induction steps using List.reverseRecOn with
  | nil => rfl
  | append_singleton steps s ih => rw [after_concat, get?_index_step, latestAdded?_concat, ih]

/-! ### One scanner -/

/-- The step makes a scanner of this name. -/
def Step.makes (name : Text) : Step → Bool
  | .scanner n _ _ => n = name
  | _ => false

/-- The step asks the scanner of this name. -/
def Step.asks (name : Text) : Step → Bool
  | .widget n => n = name
  | .paymentGateways n => n = name
  | _ => false

/-- The version that the step sets for the scanner of this name. -/
def Step.versionSet? (name : Text) : Step → Option DefaultVersion
  | .setVersion n version => if n = name then some version else none
  | _ => none

/-- The scanner of a name after a step, from the one before it and the index. -/
def Step.applied (name : Text) (index : Index) (known : Option FileScanner) :
    Step → Option FileScanner
  | .scanner n path version => if n = name then some ⟨path, version, none⟩ else known
  | .setVersion n version =>
    if n = name then known.map fun scanner => { scanner with defaultVersion := version } else known
  | .widget n => if n = name then known.map (·.look index) else known
  | .paymentGateways n => if n = name then known.map (·.look index) else known
  | _ => known

theorem get?_scanners_put (session : Session) (n : Text) (scanner : FileScanner) (name : Text) :
    Keyed.get? (session.put n scanner).scanners name =
      if n = name then some scanner else Keyed.get? session.scanners name := by
  unfold put
  rw [Keyed.get?_put]
  exact if_congr eq_comm rfl rfl

theorem get?_scanners_ask (session : Session) (n : Text) (answer : FileScanner → Answer)
    (name : Text) :
    Keyed.get? (session.ask n answer).1.scanners name =
      if n = name then (Keyed.get? session.scanners name).map (·.look session.index)
      else Keyed.get? session.scanners name := by
  unfold ask
  cases hn : Keyed.get? session.scanners n with
  | none =>
      dsimp only
      split_ifs with h
      · rw [← h, hn]
        rfl
      · rfl
  | some scanner =>
      dsimp only
      rw [get?_scanners_put]
      split_ifs with h
      · rw [← h, hn]
        rfl
      · rfl

/-- What one step does to one scanner. -/
theorem get?_scanners_step (session : Session) (s : Step) (name : Text) :
    Keyed.get? (session.step parse s).1.scanners name =
      s.applied name session.index (Keyed.get? session.scanners name) := by
  cases s with
  | add path text => rfl
  | find path => rfl
  | scanner n path version => exact get?_scanners_put session n _ name
  | setVersion n version =>
      unfold step Step.applied
      dsimp only
      cases hn : Keyed.get? session.scanners n with
      | none =>
          dsimp only
          split_ifs with h
          · rw [← h, hn]
            rfl
          · rfl
      | some scanner =>
          dsimp only
          rw [get?_scanners_put]
          split_ifs with h
          · rw [← h, hn]
            rfl
          · rfl
  | widget n => exact get?_scanners_ask session n _ name
  | paymentGateways n => exact get?_scanners_ask session n _ name

/-! ### The life of a scanner -/

/-- The version of a scanner that was made with the given one, after some steps. -/
def versionNow (name : Text) (version : DefaultVersion) (since : List Step) : DefaultVersion :=
  (since.filterMap (Step.versionSet? name)).getLast?.getD version

/-- The index when the scanner that was made after `before` is first asked, or now if none of the
steps since then asks it. -/
def firstIndex (parse : Parser) (before : List Step) (name path : Text) (version : DefaultVersion)
    (since : List Step) : Index :=
  (empty.after parse (before ++ .scanner name path version ::
    since.takeWhile fun s => !s.asks name)).index

/-- A scanner that was made after `before`, as the steps since then leave it. -/
def scannerNow (parse : Parser) (before : List Step) (name path : Text) (version : DefaultVersion)
    (since : List Step) : FileScanner where
  path := path
  defaultVersion := versionNow name version since
  looked :=
    if since.any (·.asks name) then
      some (((firstIndex parse before name path version since).get? path).map Outline.ofFile)
    else none

section life

variable {before since more : List Step} {name path : Text} {version : DefaultVersion} {s : Step}

theorem versionNow_concat : versionNow name version (since ++ [s]) =
    (s.versionSet? name).getD (versionNow name version since) := by
  unfold versionNow
  rw [List.filterMap_append, List.getLast?_append]
  cases hs : s.versionSet? name with
  | none => simp [hs]
  | some v => simp [hs]

/-- The first question stays the first one. -/
theorem firstIndex_append (h : since.any (·.asks name) = true) :
    firstIndex parse before name path version (since ++ more) =
      firstIndex parse before name path version since := by
  have hlength : ¬ (since.takeWhile fun s => !s.asks name).length = since.length := by
    intro hall
    have heq : (since.takeWhile fun s => !s.asks name) = since :=
      (List.takeWhile_prefix _).eq_of_length hall
    obtain ⟨s, hs, hasks⟩ := List.any_eq_true.mp h
    have hquiet := List.takeWhile_eq_self_iff.mp heq s hs
    rw [hasks] at hquiet
    cases hquiet
  unfold firstIndex
  rw [List.takeWhile_append, if_neg hlength]

theorem takeWhile_of_not_asked (h : since.any (·.asks name) = false) :
    (since.takeWhile fun s => !s.asks name) = since := by
  rw [List.takeWhile_eq_self_iff]
  intro s hs
  simpa using List.any_eq_false.mp h s hs

/-- A scanner that was not asked yet is first asked now. -/
theorem firstIndex_of_not_asked (h : since.any (·.asks name) = false) :
    firstIndex parse before name path version since =
      (empty.after parse (before ++ .scanner name path version :: since)).index := by
  unfold firstIndex
  rw [takeWhile_of_not_asked h]

theorem firstIndex_concat_of_asks (hs : s.asks name = true) :
    firstIndex parse before name path version (since ++ [s]) =
      firstIndex parse before name path version since := by
  cases h : since.any (·.asks name) with
  | true => exact firstIndex_append h
  | false =>
      have hquiet := takeWhile_of_not_asked h
      unfold firstIndex
      rw [List.takeWhile_append, hquiet, if_pos rfl, List.takeWhile_cons_of_neg (by simp [hs]),
        List.append_nil]

/-- A scanner that looks up its file, now or at the first question, finds what was there at the
first question. -/
theorem look_scannerNow : (scannerNow parse before name path version since).look
      (empty.after parse (before ++ .scanner name path version :: since)).index =
    (FileScanner.mk path (versionNow name version since) none).look
      (firstIndex parse before name path version since) := by
  unfold scannerNow
  cases h : since.any (·.asks name) with
  | true => simp [FileScanner.look]
  | false => simp [FileScanner.look, firstIndex_of_not_asked h]

/-- A step that neither makes nor asks the scanner leaves what it has found. -/
theorem scannerNow_concat_of_not_asks (hs : s.asks name = false) :
    scannerNow parse before name path version (since ++ [s]) =
      { scannerNow parse before name path version since with
        defaultVersion := versionNow name version (since ++ [s]) } := by
  unfold scannerNow
  have hany : (since ++ [s]).any (·.asks name) = since.any (·.asks name) := by simp [hs]
  rw [hany]
  cases h : since.any (·.asks name) with
  | true => rw [firstIndex_append h]
  | false => rfl

theorem scannerNow_concat_of_asks (hs : s.asks name = true) (hset : s.versionSet? name = none) :
    scannerNow parse before name path version (since ++ [s]) =
      (scannerNow parse before name path version since).look
        (empty.after parse (before ++ .scanner name path version :: since)).index := by
  rw [look_scannerNow]
  unfold scannerNow
  have hany : (since ++ [s]).any (·.asks name) = true := by simp [hs]
  rw [hany, firstIndex_concat_of_asks hs, versionNow_concat, hset]
  rfl

/-- One more step does to the scanner what it does to the scanner of the steps before. -/
theorem scannerNow_concat (hs : s.makes name = false) :
    s.applied name (empty.after parse (before ++ .scanner name path version :: since)).index
      (some (scannerNow parse before name path version since)) =
    some (scannerNow parse before name path version (since ++ [s])) := by
  have hkept : s.asks name = false → s.versionSet? name = none →
      scannerNow parse before name path version (since ++ [s]) =
        scannerNow parse before name path version since := by
    intro hasks hset
    rw [scannerNow_concat_of_not_asks hasks, versionNow_concat, hset]
    rfl
  cases s with
  | add p text => rw [hkept rfl rfl]; rfl
  | find p => rw [hkept rfl rfl]; rfl
  | scanner n p v =>
      have hn : ¬ n = name := by simpa [Step.makes] using hs
      rw [hkept rfl rfl, Step.applied, if_neg hn]
  | setVersion n v =>
      by_cases hn : n = name
      · have hset : (Step.setVersion n v).versionSet? name = some v := if_pos hn
        rw [scannerNow_concat_of_not_asks rfl, versionNow_concat, hset, Step.applied, if_pos hn]
        rfl
      · rw [hkept rfl (if_neg hn), Step.applied, if_neg hn]
  | widget n =>
      by_cases hn : n = name
      · have hasks : (Step.widget n).asks name = true := decide_eq_true hn
        rw [scannerNow_concat_of_asks hasks rfl, Step.applied, if_pos hn]
        rfl
      · rw [hkept (decide_eq_false hn) rfl, Step.applied, if_neg hn]
  | paymentGateways n =>
      by_cases hn : n = name
      · have hasks : (Step.paymentGateways n).asks name = true := decide_eq_true hn
        rw [scannerNow_concat_of_asks hasks rfl, Step.applied, if_pos hn]
        rfl
      · rw [hkept (decide_eq_false hn) rfl, Step.applied, if_neg hn]

/-- What the steps since a scanner was made have done to it. -/
theorem get?_scanners_after (h : ∀ s ∈ since, s.makes name = false) :
    Keyed.get? (empty.after parse (before ++ .scanner name path version :: since)).scanners name =
      some (scannerNow parse before name path version since) := by
  induction since using List.reverseRecOn with
  | nil =>
      rw [after_concat, get?_scanners_step, Step.applied, if_pos rfl]
      rfl
  | append_singleton since s ih =>
      rw [List.forall_mem_append] at h
      rw [← List.cons_append, ← List.append_assoc, after_concat, get?_scanners_step, ih h.1,
        scannerNow_concat (h.2 s (List.mem_singleton_self s))]

/-- A question is answered by the scanner that has looked up its file at the first question. -/
theorem ask_after (h : ∀ s ∈ since, s.makes name = false) (answer : FileScanner → Answer) :
    ((empty.after parse (before ++ .scanner name path version :: since)).ask name answer).2 =
      answer ((FileScanner.mk path (versionNow name version since) none).look
        (firstIndex parse before name path version since)) := by
  unfold ask
  rw [get?_scanners_after h]
  dsimp only
  rw [look_scannerNow]

/-- Where the version of a scanner is not set, it stays. -/
theorem versionNow_append (h : ∀ s ∈ more, s.versionSet? name = none) :
    versionNow name version (since ++ more) = versionNow name version since := by
  have hmore : more.filterMap (Step.versionSet? name) = [] := List.filterMap_eq_nil_iff.mpr h
  unfold versionNow
  rw [List.filterMap_append, hmore, List.append_nil]

end life

/-! ### Keys -/

/-- The path starts at the working directory. -/
def Relative (path : Text) : Prop := path.head? ≠ some (CodePoint.ofChar '/')

instance (path : Text) : Decidable (Relative path) := inferInstanceAs (Decidable (_ ≠ _))

theorem root_ofText {path : Text} (h : Relative path) : (Path.ofText path).root = .relative := by
  have hnil : path.takeWhile (fun c : CodePoint => c = '/') = [] := by
    cases path with
    | nil => rfl
    | cons c rest =>
        have hc : ¬ c = '/' := fun hc => h (by rw [hc]; rfl)
        rw [List.takeWhile_cons_of_neg (by simpa using hc)]
  show Path.rootOf path = .relative
  rw [Path.rootOf, hnil]
  rfl

/-- Two relative paths have one key exactly when they have the same components. -/
theorem key_eq_iff {p q : Text} (hp : Relative p) (hq : Relative q) :
    Index.key p = Index.key q ↔
      (Text.splitOn '/' p).filter Path.counts = (Text.splitOn '/' q).filter Path.counts := by
  constructor
  · intro h
    have hpath := Path.eq_of_toText_eq (Path.normal_ofText p) (Path.normal_ofText q) h
    exact congrArg Path.parts hpath
  · intro h
    have hroot : (Path.ofText p).root = (Path.ofText q).root := by
      rw [root_ofText hp, root_ofText hq]
    have hpath : Path.ofText p = Path.ofText q := by
      cases hp' : Path.ofText p
      cases hq' : Path.ofText q
      rw [hp', hq'] at hroot
      have hparts : (Path.ofText p).parts = (Path.ofText q).parts := h
      rw [hp', hq'] at hparts
      cases hroot
      cases hparts
      rfl
    show (Path.ofText p).toText = (Path.ofText q).toText
    rw [hpath]

/-! ### Whole sessions -/

/-- What a scanner answers that was made after `before` and was not replaced since. -/
structure AsAtFirstLook (parse : Parser) (before : List Step) (name path : Text)
    (version : DefaultVersion) (since : List Step) : Prop where
  /-- It answers like a new scanner that is asked at the index of the first question, with the
  version of now. -/
  widget : answerTo parse (before ++ .scanner name path version :: since) (.widget name) =
    .widget ((FileScanner.mk path (versionNow name version since) none).look
      (firstIndex parse before name path version since)).widget
  paymentGateways : answerTo parse (before ++ .scanner name path version :: since)
      (.paymentGateways name) =
    .paymentGateways ((FileScanner.mk path (versionNow name version since) none).look
      (firstIndex parse before name path version since)).paymentGateways
  /-- Once it was asked, only a new version changes what it answers. -/
  settled : (∃ s ∈ since, s.asks name = true) → ∀ more,
    (∀ s ∈ more, s.makes name = false ∧ s.versionSet? name = none) →
    ∀ question, question.asks name = true →
      answerTo parse (before ++ .scanner name path version :: (since ++ more)) question =
        answerTo parse (before ++ .scanner name path version :: since) question

theorem asAtFirstLook {before since : List Step} {name path : Text} {version : DefaultVersion}
    (h : ∀ s ∈ since, s.makes name = false) :
    AsAtFirstLook parse before name path version since := by
  refine ⟨ask_after h _, ask_after h _, ?_⟩
  rintro hasked more hmore question hquestion
  have hany : since.any (·.asks name) = true := List.any_eq_true.mpr hasked
  have hall : ∀ s ∈ since ++ more, s.makes name = false :=
    List.forall_mem_append.mpr ⟨h, fun s hs => (hmore s hs).1⟩
  have hversion : versionNow name version (since ++ more) = versionNow name version since :=
    versionNow_append fun s hs => (hmore s hs).2
  have hsame : ∀ answer : FileScanner → Answer,
      ((empty.after parse (before ++ .scanner name path version :: (since ++ more))).ask name
          answer).2 =
        ((empty.after parse (before ++ .scanner name path version :: since)).ask name answer).2 := by
    intro answer
    rw [ask_after hall, ask_after h, hversion, firstIndex_append hany]
  cases question with
  | widget n =>
      obtain rfl : n = name := of_decide_eq_true hquestion
      exact hsame _
  | paymentGateways n =>
      obtain rfl : n = name := of_decide_eq_true hquestion
      exact hsame _
  | _ => cases hquestion

/-- **A session finds what was added last, and a scanner answers as at its first look.** -/
theorem answers_as_at_first_look (parse : Parser) :
    (∀ history s rest,
      (empty.run parse (history ++ s :: rest))[history.length]? = some (answerTo parse history s)) ∧
    (∀ history path,
      answerTo parse history (.find path) = .found (latestAdded? parse (Index.key path) history)) ∧
    (∀ p q, Relative p → Relative q → (Index.key p = Index.key q ↔
      (Text.splitOn '/' p).filter Path.counts = (Text.splitOn '/' q).filter Path.counts)) ∧
    ∀ before name path version since, (∀ s ∈ since, s.makes name = false) →
      AsAtFirstLook parse before name path version since := by
  refine ⟨getElem?_run, ?_, fun p q => key_eq_iff, fun _ _ _ _ _ => asAtFirstLook⟩
  intro history path
  show Answer.found ((empty.after parse history).index.get? path) = _
  rw [get?_index_after]

/-- A scanner that is asked before its file is added under another spelling of the path. -/
def lateFile : List Step :=
  [.scanner "w" "src/a.ts" none, .widget "w",
    .add "./src//a.ts" (TypeScript.bytesOf "/** @widget */ function W() \x7b\x7d"),
    .setVersion "w" (some (.text "2"))]

theorem answers_as_at_first_look_lateFile :
    (∀ s ∈ lateFile.tail, s.makes "w" = false) ∧
    (empty.run TypeScript.parse (lateFile ++ [.widget "w"]))[4]? = some (.widget (.ok none)) ∧
    Relative "./src//a.ts" ∧ Relative "src/./a.ts" ∧
    Index.key "./src//a.ts" = Index.key "src/./a.ts" ∧
    (empty.run TypeScript.parse (lateFile ++ [.find "src/./a.ts"]))[4]? =
      some (.found (some (Index.read TypeScript.parse "./src//a.ts"
        (TypeScript.bytesOf "/** @widget */ function W() \x7b\x7d")))) := by
  obtain ⟨hrun, hfind, hkeys, hscanner⟩ := answers_as_at_first_look TypeScript.parse
  have hkept : ∀ s ∈ lateFile.tail, s.makes "w" = false := by decide
  have hwritten : Relative "./src//a.ts" := by decide
  have hasked : Relative "src/./a.ts" := by decide
  have hkey : Index.key "./src//a.ts" = Index.key "src/./a.ts" :=
    (hkeys _ _ hwritten hasked).mpr (by decide)
  refine ⟨hkept, ?_, hwritten, hasked, hkey, ?_⟩
  · have hanswer := (hscanner [] "w" "src/a.ts" none lateFile.tail hkept).widget
    exact (hrun lateFile (.widget "w") []).trans (congrArg some hanswer)
  · have hlatest : latestAdded? TypeScript.parse (Index.key "src/./a.ts") lateFile =
        some (Index.read TypeScript.parse "./src//a.ts"
          (TypeScript.bytesOf "/** @widget */ function W() \x7b\x7d")) := by
      unfold latestAdded? lateFile
      simp only [List.filterMap_cons, List.filterMap_nil, Step.addedAs?, hkey, if_pos]
      rfl
    rw [← hlatest, ← hfind]
    exact hrun lateFile (.find "src/./a.ts") []

end Session

/-! ### Scanners with a flag -/

/-- A scanner that keeps apart what its file declares and whether it has looked it up. -/
structure FlaggedScanner where
  /-- The path of the file as it was given. -/
  path : Text
  /-- The version of items that give none. -/
  defaultVersion : DefaultVersion
  /-- What the file declares, if it was found. -/
  parsed : Option Outline
  /-- The file was looked up. -/
  attempted : Bool

namespace FlaggedScanner

/-- The scanner after it has looked up its file. -/
def parse (scanner : FlaggedScanner) (index : Index) : FlaggedScanner :=
  if scanner.attempted then scanner
  else { scanner with
    parsed := (index.get? scanner.path).map Outline.ofFile
    attempted := true }

/-- The scanner that a flagged one amounts to: before the first look nothing is known. -/
def merged (scanner : FlaggedScanner) : FileScanner where
  path := scanner.path
  defaultVersion := scanner.defaultVersion
  looked := if scanner.attempted then some scanner.parsed else none

theorem merged_parse (scanner : FlaggedScanner) (index : Index) :
    (scanner.parse index).merged = scanner.merged.look index := by
  obtain ⟨path, version, parsed, attempted⟩ := scanner
  cases attempted with
  | true => rfl
  | false => rfl

/-- After the look both forms know the same of the file. -/
theorem outline?_merged_parse (scanner : FlaggedScanner) (index : Index) :
    (scanner.parse index).merged.outline? = (scanner.parse index).parsed := by
  obtain ⟨path, version, parsed, attempted⟩ := scanner
  cases attempted with
  | true => rfl
  | false => rfl

end FlaggedScanner

/-- An index and flagged scanners under their names. -/
structure FlaggedSession where
  /-- The index. -/
  index : Index
  /-- The scanners. -/
  scanners : Keyed FlaggedScanner

namespace FlaggedSession

open Session

/-- The session with a scanner under a name. -/
def put (session : FlaggedSession) (name : Text) (scanner : FlaggedScanner) : FlaggedSession :=
  { session with scanners := Keyed.put name scanner session.scanners }

/-- Asks a scanner that has looked up its file. -/
def ask (session : FlaggedSession) (name : Text) (answer : FlaggedScanner → Answer) :
    FlaggedSession × Answer :=
  match Keyed.get? session.scanners name with
  | none => (session, .unknown name)
  | some scanner =>
    let scanner := scanner.parse session.index
    (session.put name scanner, answer scanner)

/-- The session after a step, and its answer. -/
def step (parse : Parser) (session : FlaggedSession) : Step → FlaggedSession × Answer
  | .add path text =>
    let file := Index.read parse path text
    let index := session.index.insert file
    ({ session with index := index }, .added file.path (Keyed.keys index.files))
  | .find path => (session, .found (session.index.get? path))
  | .scanner name path version =>
    (session.put name ⟨path, version, none, false⟩, .version version)
  | .setVersion name version =>
    match Keyed.get? session.scanners name with
    | none => (session, .unknown name)
    | some scanner =>
      (session.put name { scanner with defaultVersion := version }, .version version)
  | .widget name => session.ask name fun scanner =>
    .widget (widgetOf? scanner.path scanner.defaultVersion scanner.parsed).result
  | .paymentGateways name => session.ask name fun scanner =>
    .paymentGateways (gatewaysOf? scanner.path scanner.defaultVersion scanner.parsed).result

/-- The answers to the steps of a session in order. -/
def run (parse : Parser) (session : FlaggedSession) : List Step → List Answer
  | [] => []
  | s :: rest =>
    let (session, answer) := session.step parse s
    answer :: session.run parse rest

/-- The session that a flagged one amounts to. -/
def merged (session : FlaggedSession) : Session where
  index := session.index
  scanners := session.scanners.map fun (name, scanner) => (name, scanner.merged)

theorem get?_merged (session : FlaggedSession) (name : Text) :
    Keyed.get? session.merged.scanners name =
      (Keyed.get? session.scanners name).map FlaggedScanner.merged :=
  Keyed.get?_mapValues _ _ _

theorem merged_put (session : FlaggedSession) (name : Text) (scanner : FlaggedScanner) :
    (session.put name scanner).merged = session.merged.put name scanner.merged :=
  congrArg (Session.mk session.index) (Keyed.put_mapValues _ _ _ _)

/-- A question keeps both forms in step if they answer it alike after the look. -/
theorem merged_ask (session : FlaggedSession) (name : Text) {flagged : FlaggedScanner → Answer}
    {answer : FileScanner → Answer} (h : ∀ scanner : FlaggedScanner,
      flagged (scanner.parse session.index) = answer (scanner.parse session.index).merged) :
    (session.ask name flagged).map merged id = session.merged.ask name answer := by
  unfold ask Session.ask
  rw [get?_merged]
  cases Keyed.get? session.scanners name with
  | none => rfl
  | some scanner =>
      show ((session.put name (scanner.parse session.index)).merged,
        flagged (scanner.parse session.index)) = _
      rw [merged_put, h, FlaggedScanner.merged_parse]
      rfl

/-- A step keeps both forms in step, and they give the same answer. -/
theorem merged_step (parse : Parser) (session : FlaggedSession) (s : Step) :
    (session.step parse s).map merged id = session.merged.step parse s := by
  cases s with
  | add path text => rfl
  | find path => rfl
  | scanner name path version => exact congrArg (·, _) (merged_put _ _ _)
  | setVersion name version =>
      unfold step Session.step
      dsimp only
      rw [get?_merged]
      cases Keyed.get? session.scanners name with
      | none => rfl
      | some scanner => exact congrArg (·, _) (merged_put _ _ _)
  | widget name =>
      unfold step Session.step
      refine merged_ask session name fun scanner => ?_
      rw [FileScanner.widget, FlaggedScanner.outline?_merged_parse]
      rfl
  | paymentGateways name =>
      unfold step Session.step
      refine merged_ask session name fun scanner => ?_
      rw [FileScanner.paymentGateways, FlaggedScanner.outline?_merged_parse]
      rfl

/-- Scanners with a flag answer a whole session as scanners without one. -/
theorem run_eq (parse : Parser) (session : FlaggedSession) (steps : List Step) :
    session.run parse steps = session.merged.run parse steps := by
  induction steps generalizing session with
  | nil => rfl
  | cons s steps ih =>
      rw [run, Session.run, ← merged_step]
      exact congrArg _ (ih _)

end FlaggedSession

end PluginManifest
