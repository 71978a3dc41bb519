import BigipCtlr.F5Router.Drain
import Mathlib.Data.List.TakeDrop
import Mathlib.Data.List.Induction

/-!
# The configuration file

`ConfigWriter` writes the file that the driver reads. A record lock on the whole
file keeps the two apart: the file is emptied and written under the lock only,
so a driver that takes it reads a whole configuration. Every step of `Write` can
fail, and a failed one leaves the beginning of a configuration. What is written
and read are bytes.
-/

namespace BigipCtlr

open Go Lib

-- ---------------------------------------------------------------------------
-- The writer and its readers
-- ---------------------------------------------------------------------------

inductive Writing
  | idle
  | called (input : Str)
  | opened (input : Str)
  | locked (input : Str)
  /-- `n` bytes of the input are in the file. -/
  | truncated (input : Str) (n : Nat)
  | written (input : Str)
  | unlocked (input : Str)
  /-- With or without the lock, which goes when the file is closed. -/
  | failed (held : Bool) (n : Nat) (err : Str)
  | returned (n : Nat) (err : Option Str)

def Writing.holds : Writing → Bool
  | .locked _ | .truncated _ _ | .written _ => true
  | .failed held _ _ => held
  | .idle | .called _ | .opened _ | .unlocked _ | .returned _ _ => false

def Writing.input : Writing → Option Str
  | .called input | .opened input | .locked input | .truncated input _ | .written input
  | .unlocked input => some input
  | .idle | .failed _ _ _ | .returned _ _ => none

/-- `readers` has what each process with the read lock has read, and `failures`
counts the calls of `Write` that have failed. -/
structure ConfigFile where
  content : Str
  writing : Writing
  readers : List Str
  failures : Nat

def writeAt (content : Str) (offset : Nat) (bytes : Str) : Str :=
  content.take offset ++ bytes ++ content.drop (offset + bytes.length)

/-- The next of `Write`: a call that is made of it, with its error, or a part of
the bytes. -/
inductive WriteEvent
  | openFile (err : Option Str)
  | lock (err : Option Str)
  | truncate (err : Option Str)
  | put (k : Nat)
  | write (err : Option Str)
  | unlock (err : Option Str)
  | close (err : Option Str)

inductive ReadEvent
  | lock
  | read (i k : Nat)
  | unlock (i : Nat)

namespace ConfigFile

def fail (f : ConfigFile) (held : Bool) (n : Nat) (err : Str) : ConfigFile :=
  { f with writing := .failed held n err, failures := f.failures + 1 }

def write (f : ConfigFile) : WriteEvent → Option ConfigFile
  | .openFile err =>
    match f.writing, err with
    | .called input, none => some { f with writing := .opened input }
    | .called _, some err =>
      some { f with writing := .returned 0 (some err), failures := f.failures + 1 }
    | _, _ => none
  | .lock err =>
    match f.writing, err with
    -- `F_SETLKW` waits for the readers
    | .opened input, none =>
      if f.readers = [] then some { f with writing := .locked input } else none
    | .opened _, some err => some (f.fail false 0 err)
    | _, _ => none
  | .truncate err =>
    match f.writing, err with
    | .locked input, none => some { f with content := [], writing := .truncated input 0 }
    | .locked _, some err => some (f.fail true 0 err)
    | _, _ => none
  | .put k =>
    match f.writing with
    | .truncated input n =>
      let bytes := (input.drop n).take k
      some { f with content := writeAt f.content n bytes,
                    writing := .truncated input (n + bytes.length) }
    | _ => none
  | .write err =>
    match f.writing, err with
    | .truncated input n, none =>
      if n = input.length then some { f with writing := .written input } else none
    | .truncated _ n, some err => some (f.fail true n err)
    | _, _ => none
  | .unlock err =>
    match f.writing, err with
    | .written input, none => some { f with writing := .unlocked input }
    | .written input, some err => some (f.fail true input.length err)
    | _, _ => none
  | .close err =>
    match f.writing, err with
    | .unlocked input, none => some { f with writing := .returned input.length none }
    | .unlocked input, some err =>
      some { f with writing := .returned input.length (some err), failures := f.failures + 1 }
    -- the error of `_write` is the one that is returned
    | .failed _ n err, _ => some { f with writing := .returned n (some err) }
    | _, _ => none

def read (f : ConfigFile) : ReadEvent → Option ConfigFile
  | .lock => if f.writing.holds then none else some { f with readers := f.readers ++ [[]] }
  | .read i k =>
    f.readers[i]?.map fun data =>
      { f with readers := f.readers.set i (data ++ (f.content.drop data.length).take k) }
  | .unlock i =>
    if i < f.readers.length then some { f with readers := f.readers.eraseIdx i } else none

end ConfigFile

-- ---------------------------------------------------------------------------
-- The controller with the file
-- ---------------------------------------------------------------------------

structure Publisher where
  drain : Drain
  file : ConfigFile

inductive PublisherEvent
  | drain (e : DrainEvent)
  | write (e : WriteEvent)
  | read (e : ReadEvent)

/-- A turn of the worker; what was rendered is handed to `Write`, and the worker
goes on when that has returned. `marshal` makes the bytes
of the JSON of the sections. -/
def Publisher.turn (codec : Codec) (marshal : Sections → Str) (s : Publisher) (o : Order) :
    Option Publisher :=
  match s.drain.controller.phase with
  | .rendered _ sections =>
    match s.file.writing with
    | .idle => some { s with file := { s.file with writing := .called (marshal sections) } }
    | .returned _ _ =>
      (s.drain.step codec (.turn o)).map fun d => ⟨d, { s.file with writing := .idle }⟩
    | _ => none
  | _ => (s.drain.step codec (.turn o)).map fun d => { s with drain := d }

def Publisher.step (codec : Codec) (marshal : Sections → Str) (s : Publisher) :
    PublisherEvent → Option Publisher
  | .drain (.turn o) => s.turn codec marshal o
  | .drain e => (s.drain.step codec e).map fun d => { s with drain := d }
  | .write e => (s.file.write e).map fun f => { s with file := f }
  | .read e => (s.file.read e).map fun f => { s with file := f }

def Publisher.start (r : F5Router) (initial : Str) : Publisher :=
  ⟨.start r, ⟨initial, .idle, [], 0⟩⟩

/-- The initial configuration, and those that were current in the course of a
run. -/
def Published (codec : Codec) (marshal : Sections → Str) (r : F5Router) (initial : Str)
    (es : List PublisherEvent) (x : Str) : Prop :=
  x = initial ∨ ∃ fs, fs <+: es ∧ ∃ t ∈ run (Publisher.step codec marshal) (.start r initial) fs,
    ∃ sections, t.drain.controller.router.Current sections ∧ marshal sections = x

-- ---------------------------------------------------------------------------
-- The file
-- ---------------------------------------------------------------------------

section
variable {known last next : Str → Prop} {f : ConfigFile}

def ConfigFile.Whole (known : Str → Prop) (f : ConfigFile) : Prop :=
  ∃ whole, known whole ∧ f.content <+: whole ∧ (f.failures = 0 → f.content = whole)

/-- What the file has at each point of `Write`: as long as it has not failed,
what was handed over `last`, and in the end what comes `next`. -/
def ConfigFile.Contains (known last next : Str → Prop) (f : ConfigFile) : Prop :=
  match f.writing with
  | .idle | .called _ | .opened _ | .locked _ => f.Whole known ∧ (f.failures = 0 → last f.content)
  | .truncated input n => f.content = input.take n ∧ n ≤ input.length
  | .written input | .unlocked input => f.content = input
  | .failed _ _ _ => f.Whole known ∧ f.failures ≠ 0
  | .returned _ _ => f.Whole known ∧ (f.failures = 0 → next f.content)

structure ConfigFile.Sound (known last next : Str → Prop) (f : ConfigFile) : Prop where
  input : ∀ input, f.writing.input = some input → known input ∧ next input
  excluded : f.writing.holds = true → f.readers = []
  reading : ∀ data ∈ f.readers, data <+: f.content
  content : f.Contains known last next

theorem writeAt_take (input : Str) (hn : n ≤ input.length) (k : Nat) :
    writeAt (input.take n) n ((input.drop n).take k) =
      input.take (n + ((input.drop n).take k).length) := by
  have hlen : (input.take n).length = n := List.length_take_of_le hn
  have hdrop : (input.take n).drop (n + ((input.drop n).take k).length) = [] :=
    List.drop_eq_nil_of_le (by omega)
  rw [writeAt, hdrop, List.append_nil, List.take_of_length_le (Nat.le_of_eq hlen), List.take_add,
    List.length_take]
  congr 1
  exact List.take_eq_take_min

theorem ConfigFile.Whole.of_isPrefix {f : ConfigFile} (hknown : known whole)
    (hpre : f.content <+: whole) (hf : f.failures ≠ 0) : f.Whole known :=
  ⟨whole, hknown, hpre, fun hzero => absurd hzero hf⟩

theorem ConfigFile.Whole.of_eq {f : ConfigFile} (hknown : known f.content) : f.Whole known :=
  ⟨f.content, hknown, List.prefix_rfl, fun _ => rfl⟩

theorem ConfigFile.Sound.whole (h : f.Sound known last next) (hfree : f.writing.holds = false) :
    f.Whole known := by
  have hcontent := h.content
  rw [ConfigFile.Contains] at hcontent
  cases hw : f.writing with
  | truncated | written =>
    rw [hw] at hfree
    cases hfree
  | unlocked input =>
    rw [hw] at hcontent
    exact .of_eq (hcontent ▸ (h.input input (by rw [hw]; rfl)).1)
  | idle | called | opened | locked | failed | returned =>
    rw [hw] at hcontent
    exact hcontent.1

theorem ConfigFile.Sound.move (h : f.Sound known last next) {w : Writing} {n : Nat}
    (hinput : ∀ input, w.input = some input → f.writing.input = some input)
    (hholds : w.holds = true → f.readers = [] ∨ f.writing.holds = true)
    (hcontent : ConfigFile.Contains known last next { f with writing := w, failures := n }) :
    ConfigFile.Sound known last next { f with writing := w, failures := n } :=
  ⟨fun input hi => h.input input (hinput input hi), fun hw => (hholds hw).elim id h.excluded,
    h.reading, hcontent⟩

theorem ConfigFile.Sound.fail (h : f.Sound known last next)
    (hpre : ∃ whole, known whole ∧ f.content <+: whole) (held : Bool) (n : Nat) (err : Str)
    (hheld : held = true → f.writing.holds = true) :
    (f.fail held n err).Sound known last next := by
  obtain ⟨whole, hknown, hpre⟩ := hpre
  have hne : f.failures + 1 ≠ 0 := Nat.succ_ne_zero _
  exact h.move (by simp [Writing.input]) (fun hh => .inr (hheld hh))
    ⟨.of_isPrefix hknown hpre hne, hne⟩

theorem ConfigFile.Sound.refuse (h : f.Sound known last next)
    (hpre : ∃ whole, known whole ∧ f.content <+: whole) (n : Nat) (err : Option Str)
    {failures : Nat} (hf : failures ≠ 0) :
    ConfigFile.Sound known last next { f with
      writing := .returned n err, failures := failures } := by
  obtain ⟨whole, hknown, hpre⟩ := hpre
  exact h.move (by simp [Writing.input]) (by simp [Writing.holds])
    ⟨.of_isPrefix hknown hpre hf, fun hzero => absurd hzero hf⟩

theorem ConfigFile.Whole.exists_whole {f : ConfigFile} (h : f.Whole known) :
    ∃ whole, known whole ∧ f.content <+: whole := by
  obtain ⟨whole, hknown, hpre, -⟩ := h
  exact ⟨whole, hknown, hpre⟩

theorem ConfigFile.Sound.write (h : f.Sound known last next) (hstep : f.write e = some f') :
    f'.Sound known last next := by
  have hcontent := h.content
  rw [ConfigFile.Contains] at hcontent
  cases e with
  | openFile err =>
    simp only [ConfigFile.write] at hstep
    split at hstep
    · next input hw =>
      cases hstep
      rw [hw] at hcontent
      exact h.move (by simp [hw, Writing.input]) (by simp [Writing.holds]) hcontent
    · next input err hw =>
      cases hstep
      rw [hw] at hcontent
      exact h.refuse hcontent.1.exists_whole 0 (some err) (Nat.succ_ne_zero _)
    · cases hstep
  | lock err =>
    simp only [ConfigFile.write] at hstep
    split at hstep
    · next input hw =>
      simp only [Option.ite_none_right_eq_some, Option.some.injEq] at hstep
      obtain ⟨hnone, rfl⟩ := hstep
      rw [hw] at hcontent
      exact h.move (by simp [hw, Writing.input]) (fun _ => .inl hnone) hcontent
    · next input err hw =>
      cases hstep
      rw [hw] at hcontent
      exact h.fail hcontent.1.exists_whole false 0 err fun hheld => by cases hheld
    · cases hstep
  | truncate err =>
    simp only [ConfigFile.write] at hstep
    split at hstep
    · next input hw =>
      cases hstep
      have hnone := h.excluded (by rw [hw]; rfl)
      have hinput := h.input input (by rw [hw]; rfl)
      refine ⟨?_, fun _ => hnone, by simp [hnone], rfl, Nat.zero_le _⟩
      rintro _ ⟨⟩
      exact hinput
    · next input err hw =>
      cases hstep
      rw [hw] at hcontent
      exact h.fail hcontent.1.exists_whole true 0 err fun _ => by rw [hw]; rfl
    · cases hstep
  | put k =>
    simp only [ConfigFile.write] at hstep
    split at hstep
    · next input n hw =>
      cases hstep
      rw [hw] at hcontent
      obtain ⟨htake, hn⟩ := hcontent
      have hnone := h.excluded (by rw [hw]; rfl)
      have hinput := h.input input (by rw [hw]; rfl)
      refine ⟨?_, fun _ => hnone, by simp [hnone], ?_, ?_⟩
      · rintro _ ⟨⟩
        exact hinput
      · rw [htake, writeAt_take input hn k]
      · rw [List.length_take, List.length_drop]
        omega
    · cases hstep
  | write err =>
    simp only [ConfigFile.write] at hstep
    split at hstep
    · next input n hw =>
      simp only [Option.ite_none_right_eq_some, Option.some.injEq] at hstep
      obtain ⟨rfl, rfl⟩ := hstep
      rw [hw] at hcontent
      exact h.move (by simp [hw, Writing.input]) (fun _ => .inr (by rw [hw]; rfl))
        (hcontent.1.trans List.take_length)
    · next input n err hw =>
      cases hstep
      rw [hw] at hcontent
      have hinput := h.input input (by rw [hw]; rfl)
      exact h.fail ⟨input, hinput.1, hcontent.1 ▸ List.take_prefix n input⟩ true n err fun _ => by
        rw [hw]; rfl
    · cases hstep
  | unlock err =>
    simp only [ConfigFile.write] at hstep
    split at hstep
    · next input hw =>
      cases hstep
      rw [hw] at hcontent
      exact h.move (by simp [hw, Writing.input]) (by simp [Writing.holds]) hcontent
    · next input err hw =>
      cases hstep
      rw [hw] at hcontent
      have hinput := h.input input (by rw [hw]; rfl)
      exact h.fail ⟨input, hinput.1, hcontent ▸ List.prefix_rfl⟩ true _ err fun _ => by rw [hw]; rfl
    · cases hstep
  | close err =>
    simp only [ConfigFile.write] at hstep
    split at hstep
    · next input hw =>
      cases hstep
      rw [hw] at hcontent
      obtain ⟨hknown, hnext⟩ := h.input input (by rw [hw]; rfl)
      subst hcontent
      exact h.move (by simp [Writing.input]) (by simp [Writing.holds]) ⟨.of_eq hknown,
        fun _ => hnext⟩
    · next input err hw =>
      cases hstep
      have hwhole := h.whole (by rw [hw]; rfl)
      exact h.refuse hwhole.exists_whole _ (some err) (Nat.succ_ne_zero _)
    · next held n err hw =>
      cases hstep
      rw [hw] at hcontent
      exact h.refuse hcontent.1.exists_whole n (some err) hcontent.2
    · cases hstep

theorem ConfigFile.Sound.read (h : f.Sound known last next) (hstep : f.read e = some f') :
    f'.Sound known last next := by
  cases e with
  | lock =>
    simp only [ConfigFile.read, Option.ite_none_left_eq_some, Option.some.injEq] at hstep
    obtain ⟨hfree, rfl⟩ := hstep
    refine ⟨h.input, fun hh => absurd hh hfree, ?_, h.content⟩
    intro data hdata
    rcases List.mem_append.mp hdata with hold | hnew
    · exact h.reading data hold
    · rw [List.mem_singleton.mp hnew]
      exact List.nil_prefix
  | read i k =>
    obtain ⟨data, hi, rfl⟩ := Option.map_eq_some_iff.mp hstep
    have hmem := List.mem_of_getElem? hi
    refine ⟨h.input, fun hh => ?_, ?_, h.content⟩
    · have hnone := h.excluded hh
      rw [hnone] at hmem
      cases hmem
    · intro d hd
      rcases List.mem_or_eq_of_mem_set hd with hold | rfl
      · exact h.reading d hold
      · obtain ⟨rest, hrest⟩ := h.reading data hmem
        rw [← hrest, List.drop_left]
        exact (List.prefix_append_right_inj data).mpr (List.take_prefix k rest)
  | unlock i =>
    simp only [ConfigFile.read, Option.ite_none_right_eq_some, Option.some.injEq] at hstep
    obtain ⟨-, rfl⟩ := hstep
    refine ⟨h.input, fun hh => ?_, fun data hd => h.reading data (List.mem_of_mem_eraseIdx hd),
      h.content⟩
    show f.readers.eraseIdx i = []
    rw [h.excluded hh]
    rfl

theorem ConfigFile.Sound.mono {known' : Str → Prop} (h : f.Sound known last next)
    (hk : ∀ x, known x → known' x) :
    f.Sound known' last next := by
  have hwhole : f.Whole known → f.Whole known' := by
    rintro ⟨whole, hknown, hrest⟩
    exact ⟨whole, hk whole hknown, hrest⟩
  refine ⟨fun input hi => (h.input input hi).imp_left (hk input), h.excluded, h.reading, ?_⟩
  have hcontent := h.content
  rw [ConfigFile.Contains] at hcontent ⊢
  cases hw : f.writing with
  | truncated | written | unlocked =>
    rw [hw] at hcontent
    exact hcontent
  | idle | called | opened | locked | failed | returned =>
    rw [hw] at hcontent
    exact hcontent.imp_left hwhole

theorem ConfigFile.Sound.of_idle {last' next' : Str → Prop} (h : f.Sound known last next)
    (hw : f.writing = .idle) (hlast : ∀ x, last x → last' x) : f.Sound known last' next' := by
  have hcontent := h.content
  simp only [ConfigFile.Contains, hw] at hcontent
  refine ⟨by simp [hw, Writing.input], h.excluded, h.reading, ?_⟩
  simp only [ConfigFile.Contains, hw]
  exact hcontent.imp_right fun hc hzero => hlast _ (hc hzero)

theorem ConfigFile.Sound.begin {input : Str} (h : f.Sound known last next) (hw : f.writing = .idle)
    (hknown : known input) (hnext : next input) :
    ConfigFile.Sound known last next { f with writing := .called input } := by
  have hcontent := h.content
  simp only [ConfigFile.Contains, hw] at hcontent
  refine ⟨?_, by simp [Writing.holds], h.reading, hcontent⟩
  rintro _ ⟨⟩
  exact ⟨hknown, hnext⟩

theorem ConfigFile.Sound.finish (h : f.Sound known last next) (hw : f.writing = .returned n err) :
    ConfigFile.Sound known next next { f with writing := .idle } := by
  have hcontent := h.content
  simp only [ConfigFile.Contains, hw] at hcontent
  exact ⟨by simp [Writing.input], by simp [Writing.holds], h.reading, hcontent⟩

end

-- ---------------------------------------------------------------------------
-- The controller
-- ---------------------------------------------------------------------------

section
variable {codec : Codec} {marshal : Sections → Str} {known known' : Str → Prop} {s : Publisher}

def Publisher.Last (marshal : Sections → Str) (k : Controller) (x : Str) : Prop :=
  ∀ sections, k.written = some sections → x = marshal sections

def Publisher.Next (marshal : Sections → Str) (k : Controller) (x : Str) : Prop :=
  ∀ item sections, k.phase = .rendered item sections → x = marshal sections

def Phase.isRendered : Phase → Bool
  | .rendered _ _ => true
  | .waiting | .got _ | .handled _ | .draining _ | .finished _ => false

structure Publisher.Sound (marshal : Sections → Str) (known : Str → Prop)
    (s : Publisher) : Prop where
  drain : s.drain.Sound
  file : s.file.Sound known (Last marshal s.drain.controller) (Next marshal s.drain.controller)
  rendered : ∀ item sections, s.drain.controller.phase = .rendered item sections →
    known (marshal sections)
  busy : s.drain.controller.phase.isRendered = false → s.file.writing = .idle

theorem Controller.turn_written {k k' : Controller} (hk : k.phase.isRendered = false)
    (h : k.turn codec o = some k') :
    k'.written = k.written ∧ ∀ item sections, k'.phase = .rendered item sections →
      k'.router.Current sections := by
  obtain ⟨r, q, phase, w⟩ := k
  cases phase with
  | waiting =>
    obtain ⟨x, -, rfl⟩ := Option.map_eq_some_iff.mp h
    exact ⟨rfl, fun item sections hp => by cases hp⟩
  | got item =>
    obtain ⟨r', -, rfl⟩ := Option.map_eq_some_iff.mp h
    exact ⟨rfl, fun item sections hp => by cases hp⟩
  | handled item =>
    cases h
    refine ⟨rfl, fun item sections hp => ?_⟩
    dsimp only at hp
    split at hp <;> cases hp
  | draining item =>
    obtain ⟨r', -, h⟩ := Option.bind_eq_some_iff.mp h
    obtain ⟨sections, hsections, h⟩ := Option.bind_eq_some_iff.mp h
    cases h
    refine ⟨rfl, fun item' sections' hp => ?_⟩
    cases hp
    exact ⟨o, hsections⟩
  | rendered item sections => cases hk
  | finished item =>
    cases h
    exact ⟨rfl, fun item sections hp => by cases hp⟩

theorem ConfigFile.write_idle {f : ConfigFile} (hw : f.writing = .idle) (e : WriteEvent) :
    f.write e = none := by
  cases e <;> simp [ConfigFile.write, hw]

theorem ConfigFile.read_writing {f : ConfigFile} (h : f.read e = some f') :
    f'.writing = f.writing := by
  cases e with
  | lock =>
    simp only [ConfigFile.read, Option.ite_none_left_eq_some, Option.some.injEq] at h
    rw [← h.2]
  | read i k =>
    obtain ⟨data, -, rfl⟩ := Option.map_eq_some_iff.mp h
    rfl
  | unlock i =>
    simp only [ConfigFile.read, Option.ite_none_right_eq_some, Option.some.injEq] at h
    rw [← h.2]

theorem Publisher.Sound.turn (h : s.Sound marshal known)
    (hcurrent : ∀ sections, t.drain.controller.router.Current sections → known (marshal sections))
    (hstep : s.turn codec marshal o = some t) : t.Sound marshal known := by
  rw [Publisher.turn] at hstep
  split at hstep
  · next item sections hp =>
    split at hstep
    · next hw =>
      cases hstep
      refine ⟨h.drain, h.file.begin hw (h.rendered item sections hp) ?_, h.rendered, fun hb => ?_⟩
      · intro item' sections' hp'
        rw [hp] at hp'
        cases hp'
        rfl
      · rw [hp] at hb
        cases hb
    · next hw =>
      obtain ⟨d, hd, rfl⟩ := Option.map_eq_some_iff.mp hstep
      have hdrain := h.drain.step hd
      obtain ⟨k, hk, rfl⟩ := Option.map_eq_some_iff.mp hd
      have hfile := h.file.finish hw
      rw [Controller.turn, hp] at hk
      cases hk
      refine ⟨hdrain, ?_, fun item' sections' hp' => ?_, fun _ => rfl⟩
      · refine hfile.of_idle rfl ?_
        rintro x hx sections' ⟨⟩
        exact hx item sections hp
      · cases hp'
    · cases hstep
  · next hp =>
    obtain ⟨d, hd, rfl⟩ := Option.map_eq_some_iff.mp hstep
    have hbusy : s.drain.controller.phase.isRendered = false := by
      cases hphase : s.drain.controller.phase with
      | rendered item sections => exact absurd hphase (hp item sections)
      | waiting | got | handled | draining | finished => rfl
    have hidle := h.busy hbusy
    have hdrain := h.drain.step hd
    obtain ⟨k, hk, rfl⟩ := Option.map_eq_some_iff.mp hd
    obtain ⟨hwritten, hrendered⟩ := Controller.turn_written hbusy hk
    refine ⟨hdrain, ?_, fun item sections hr => hcurrent sections (hrendered item sections hr),
      fun _ => hidle⟩
    refine h.file.of_idle hidle fun x hx sections hs => hx sections ?_
    rw [← hwritten]
    exact hs

theorem Publisher.Sound.step (h : s.Sound marshal known)
    (hcurrent : ∀ sections, t.drain.controller.router.Current sections → known (marshal sections))
    (hstep : s.step codec marshal e = some t) : t.Sound marshal known := by
  cases e with
  | drain e =>
    cases e with
    | turn o => exact h.turn hcurrent hstep
    | update item =>
      cases hstep
      have hd : s.drain.step codec (.update item) = some _ := rfl
      exact ⟨h.drain.step hd, h.file, h.rendered, h.busy⟩
    | change change item =>
      cases hstep
      have hd : s.drain.step codec (.change change item) = some _ := rfl
      exact ⟨h.drain.step hd, h.file, h.rendered, h.busy⟩
    | submit item =>
      obtain ⟨d, hd, rfl⟩ := Option.map_eq_some_iff.mp hstep
      have hdrain := h.drain.step hd
      simp only [Drain.step, Option.ite_none_right_eq_some, Option.some.injEq] at hd
      obtain ⟨-, rfl⟩ := hd
      exact ⟨hdrain, h.file, h.rendered, h.busy⟩
  | write e =>
    obtain ⟨f, hf, rfl⟩ := Option.map_eq_some_iff.mp hstep
    refine ⟨h.drain, h.file.write hf, h.rendered, fun hb => ?_⟩
    rw [ConfigFile.write_idle (h.busy hb)] at hf
    cases hf
  | read e =>
    obtain ⟨f, hf, rfl⟩ := Option.map_eq_some_iff.mp hstep
    exact ⟨h.drain, h.file.read hf, h.rendered,
      fun hb => (ConfigFile.read_writing hf).trans (h.busy hb)⟩

theorem Publisher.Sound.mono (h : s.Sound marshal known) (hk : ∀ x, known x → known' x) :
    s.Sound marshal known' :=
  ⟨h.drain, h.file.mono hk, fun item sections hp => hk _ (h.rendered item sections hp), h.busy⟩

theorem Publisher.sound_start (r : F5Router) (hinitial : known initial) :
    (Publisher.start r initial).Sound marshal known := by
  refine ⟨⟨WorkQueue.sound_empty, fun _ => fun h => absurd rfl h⟩, ?_,
    (fun item sections hp => by cases hp), fun _ => rfl⟩
  refine ⟨by simp [Publisher.start, Writing.input], fun _ => rfl, by simp [Publisher.start],
    ?_, fun _ => ?_⟩
  · exact .of_eq hinitial
  · rintro sections ⟨⟩

theorem Published.mono {es es' : List PublisherEvent} (hes : es <+: es')
    (h : Published codec marshal r initial es x) :
    Published codec marshal r initial es' x := by
  rcases h with rfl | ⟨fs, hfs, hrest⟩
  · exact .inl rfl
  · exact .inr ⟨fs, hfs.trans hes, hrest⟩

theorem Publisher.Sound.run
    (hrun : Lib.run (Publisher.step codec marshal) (.start r initial) es = some s) :
    s.Sound marshal (Published codec marshal r initial es) := by
  induction es using List.reverseRecOn generalizing s with
  | nil =>
    cases hrun
    exact Publisher.sound_start r (.inl rfl)
  | append_singleton es e ih =>
    have hrun' := hrun
    obtain ⟨u, hu, hstep⟩ := run_append_eq_some.mp hrun
    obtain ⟨t, hstep, hnil⟩ := run_cons_eq_some.mp hstep
    cases hnil
    have hsound := (ih hu).mono fun x hx => hx.mono (List.prefix_append es [e])
    exact hsound.step (fun sections hcurrent =>
      .inr ⟨_, List.prefix_rfl, _, hrun', sections, hcurrent, rfl⟩) hstep

/-- What a driver reads to the end under its lock is a configuration that was
current, or the beginning of one when `Write` has failed; and it is the current
one when nothing is on its way. -/
theorem driver_reads_configuration (r : F5Router)
    (hrun : Lib.run (Publisher.step codec marshal) (.start r initial) es = some s)
    (hdata : data ∈ s.file.readers) (hend : data.length = s.file.content.length) :
    (∃ whole, Published codec marshal r initial es whole ∧ data <+: whole ∧
      (s.file.failures = 0 → data = whole)) ∧
    (s.drain.controller.queue.Idle → s.drain.inFlight = [] → 1 ≤ s.drain.processed →
      s.file.failures = 0 →
      ∃ sections, s.drain.controller.router.Current sections ∧ data = marshal sections) := by
  have hsound := Publisher.Sound.run hrun
  obtain rfl : data = s.file.content := (hsound.file.reading data hdata).eq_of_length hend
  have hfree : s.file.writing.holds = false := by
    cases hholds : s.file.writing.holds with
    | false => rfl
    | true =>
      rw [hsound.file.excluded hholds] at hdata
      cases hdata
  refine ⟨hsound.file.whole hfree, fun hidle hflight hprocessed hzero => ?_⟩
  obtain ⟨hp, sections, hwritten, hcurrent⟩ := hsound.drain.current hidle hflight hprocessed
  have hcontent := hsound.file.content
  rw [ConfigFile.Contains, hsound.busy (by rw [hp]; rfl)] at hcontent
  exact ⟨sections, hcurrent, hcontent.2 hzero sections hwritten⟩

end

namespace Sample

/-- A text of the pools stands for the JSON of the sections. -/
def poolNames (sections : Sections) : Str :=
  (sections.resources.lookup "cf".toList).elim [] fun res => (res.pools.map Pool.name).flatten

def publication : List PublisherEvent :=
  [.drain (.update addA)] ++ List.replicate 5 (.drain (.turn .stored)) ++
    [.read .lock, .write (.openFile none), .read (.read 0 4), .read (.unlock 0),
      .write (.lock none), .write (.truncate none), .write (.put 3), .write (.put 3),
      .write (.write none), .write (.unlock none), .read .lock, .write (.close none),
      .drain (.turn .stored), .drain (.turn .stored), .read (.read 0 3), .read (.read 0 3)]

end Sample

theorem driver_reads_sample :
    ∃ r ∈ boot jsonCodec Sample.config ∅ none,
      ∃ s ∈ run (Publisher.step jsonCodec Sample.poolNames) (.start r "initial".toList)
          Sample.publication,
        "cf-a".toList ∈ s.file.readers ∧
        ∃ sections, s.drain.controller.router.Current sections ∧
          "cf-a".toList = Sample.poolNames sections := by
  have hrun : ∃ r ∈ boot jsonCodec Sample.config ∅ none,
      ∃ s ∈ run (Publisher.step jsonCodec Sample.poolNames) (.start r "initial".toList)
          Sample.publication,
        "cf-a".toList ∈ s.file.readers ∧ "cf-a".toList.length = s.file.content.length ∧
        s.drain.controller.queue.Idle ∧ s.drain.inFlight = [] ∧ 1 ≤ s.drain.processed ∧
        s.file.failures = 0 := by
    decide +kernel
  obtain ⟨r, hboot, s, hrun, hdata, hend, hidle, hflight, hprocessed, hzero⟩ := hrun
  exact ⟨r, hboot, s, hrun, hdata,
    (driver_reads_configuration r hrun hdata hend).2 hidle hflight hprocessed hzero⟩

end BigipCtlr
