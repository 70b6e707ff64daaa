/-
The log of a link, as `LinkQueue` writes it (link_queue.cc) and as the line loop of
mm-throughput-graph reads it. The command line goes into the log as a comment, quoted for a shell
(linkshell.cc); a line end in an argument ends the comment, and what comes after it is read as an
event.
-/
import Mathlib.Data.List.DropRight
import AbcMahimahi.Frontend.TraceFile
import AbcMahimahi.Lib.ShellWords

namespace AbcMahimahi.Frontend

open Bytes Packet

/-! ## The command line -/

def shellQuote (arg : Bytes) : Bytes :=
  ascii "'" ++ arg.flatMap (fun ch => if ch ≠ 39 then [ch] else ascii "'\\''") ++ ascii "'"

/-- `command_line` in `main`. -/
def commandLine : List Bytes → Bytes
  | [] => []
  | arg :: args => shellQuote arg ++ args.flatMap fun arg => ascii " " ++ shellQuote arg

/-- Single quotes give back what is between them, and a quote by itself is escaped. -/
theorem bytes_quoted : ∀ (arg word : Bytes) (done : List Bytes),
    ShellWords.Reader.bytes ⟨.single, some word, done⟩ (arg.flatMap fun ch => if ch ≠ 39 then [ch] else ascii "'\\''") =
      some ⟨.single, some (word ++ arg), done⟩
  | [], word, done => by
    rw [List.append_nil]
    rfl
  | b :: arg, word, done => by
    have ih := bytes_quoted arg (word ++ [b]) done
    rw [List.append_assoc] at ih
    rw [List.flatMap_cons, ShellWords.Reader.bytes_append]
    by_cases hb : b = 39
    · subst hb
      have hquote : ShellWords.Reader.bytes ⟨.single, some word, done⟩ (ascii "'\\''") =
          some ⟨.single, some (word ++ [39] ++ []), done⟩ := rfl
      rw [if_neg (not_not.2 rfl), hquote, List.append_nil, Option.bind_some]
      exact ih
    · rw [if_pos hb, ShellWords.Reader.bytes_cons, ShellWords.Reader.byte_quoted rfl hb]
      exact ih

theorem bytes_shellQuote (arg : Bytes) (done : List Bytes) :
    ShellWords.Reader.bytes ⟨.unquoted, none, done⟩ (shellQuote arg) = some ⟨.unquoted, some arg, done⟩ := by
  unfold shellQuote
  rw [ShellWords.Reader.bytes_append, ShellWords.Reader.bytes_append]
  have hopen : ShellWords.Reader.bytes ⟨.unquoted, none, done⟩ (ascii "'") = some ⟨.single, some [], done⟩ := rfl
  rw [hopen, Option.bind_some, bytes_quoted]
  rfl

/-- A quoted argument is one word of the shell, the argument. -/
theorem read_shellQuote (arg : Bytes) : ShellWords.read (shellQuote arg) = some [arg] := by
  unfold ShellWords.read
  rw [bytes_shellQuote]
  rfl

theorem bytes_arguments : ∀ (args : List Bytes) (arg : Bytes) (done : List Bytes),
    (ShellWords.Reader.bytes ⟨.unquoted, some arg, done⟩ (args.flatMap fun arg => ascii " " ++ shellQuote arg)).bind
      ShellWords.Reader.finish = some (done ++ arg :: args)
  | [], arg, done => rfl
  | next :: args, arg, done => by
    have hblank : ShellWords.Reader.bytes ⟨.unquoted, some arg, done⟩ (ascii " ") =
        some ⟨.unquoted, none, done ++ [arg]⟩ := rfl
    rw [List.flatMap_cons, ShellWords.Reader.bytes_append, ShellWords.Reader.bytes_append, hblank, Option.bind_some,
      bytes_shellQuote, Option.bind_some, bytes_arguments args next (done ++ [arg]), List.append_assoc]
    rfl

/-- The command line is a command whose words are the arguments. -/
theorem read_commandLine : ∀ args : List Bytes, ShellWords.read (commandLine args) = some args
  | [] => rfl
  | arg :: args => by
    unfold ShellWords.read commandLine
    rw [ShellWords.Reader.bytes_append, bytes_shellQuote]
    exact bytes_arguments args arg []

theorem mem_shellQuote {arg : Bytes} {b : UInt8} (hquote : b ≠ 39) (hslash : b ≠ 92) : b ∈ shellQuote arg ↔ b ∈ arg := by
  unfold shellQuote
  simp only [List.mem_append, List.mem_flatMap]
  have hfirst : b ∉ ascii "'" := by simpa [ascii] using hquote
  constructor
  · rintro ((h | ⟨c, hc, h⟩) | h)
    · exact absurd h hfirst
    · split at h
      · rwa [List.mem_singleton.1 h]
      · exact absurd h (by simp [ascii, hquote, hslash])
    · exact absurd h hfirst
  · intro h
    refine Or.inl (Or.inr ⟨b, h, ?_⟩)
    rw [if_pos hquote]
    exact List.mem_singleton.2 rfl

theorem mem_commandLine {args : List Bytes} {b : UInt8} (hquote : b ≠ 39) (hslash : b ≠ 92) (hblank : b ≠ 32) :
    b ∈ commandLine args ↔ ∃ arg ∈ args, b ∈ arg := by
  cases args with
  | nil => simp [commandLine]
  | cons arg args =>
    have hspace : b ∉ ascii " " := by simpa [ascii] using hblank
    unfold commandLine
    simp only [List.mem_append, List.mem_flatMap, mem_shellQuote hquote hslash, List.exists_mem_cons_iff, hspace, false_or]

/-! ## What is written -/

/-- Lines, each ended by `endl`. -/
def written (ls : List Bytes) : Bytes := ls.flatMap (· ++ [10])

/-- A line of the log as text. -/
def LogLine.text : LogLine → Bytes
  | .arrival time size => ascii time.repr ++ ascii " + " ++ ascii size.repr
  | .opportunity time size => ascii time.repr ++ ascii " # " ++ ascii size.repr
  | .departure time size delay src dst =>
    ascii time.repr ++ ascii " - " ++ ascii size.repr ++ ascii " " ++ ascii delay.repr ++ ascii " " ++ ascii src.repr ++
      ascii " " ++ ascii dst.repr

/-- What a link with a log is given, by `main` and by its environment. -/
structure Invocation where
  argv : List Bytes
  linkName : Bytes
  filename : Bytes
  logfile : Bytes
  /-- `MAHIMAHI_SHELL_PREFIX`. -/
  shellPrefix : Option Bytes
  initialTimestamp : Nat
  baseTimestamp : Nat
  link : linkName = ascii "Uplink" ∨ linkName = ascii "Downlink"
  filename_mem : filename ∈ argv
  /-- `optarg` is the end of an argument. -/
  logfile_mem : ∃ arg ∈ argv, logfile <:+ arg

namespace Invocation

/-- The comment that records the command line. -/
def commandComment (i : Invocation) : Bytes := ascii "# command line: " ++ commandLine i.argv

/-- The comments at the head of the log, for a queue of that description. -/
def comments (i : Invocation) (queue : Bytes) : List Bytes :=
  [ascii "# mahimahi mm-link (" ++ i.linkName ++ ascii ") [" ++ i.filename ++ ascii "] > " ++ i.logfile,
    i.commandComment,
    ascii "# queue: " ++ queue,
    ascii "# init timestamp: " ++ ascii i.initialTimestamp.repr,
    ascii "# base timestamp: " ++ ascii i.baseTimestamp.repr] ++
  (i.shellPrefix.map (ascii "# mahimahi config: " ++ ·)).toList

/-- The file, with those lines after the comments. -/
def log (i : Invocation) (queue : Bytes) (ls : List LogLine) : Bytes := written (i.comments queue ++ ls.map LogLine.text)

end Invocation

/-! ## What mm-throughput-graph reads -/

/-- `split /\s+/`: a run of spaces ends a field, and fields without a byte at the end are left out. -/
def splitFields : Bytes → List Bytes
  | [] => [[]]
  | b :: bs =>
    if isSpace b then
      if (bs.head?.map isSpace).getD false then splitFields bs else [] :: splitFields bs
    else
      match splitFields bs with
      | [] => [[b]]
      | field :: fields => (b :: field) :: fields

def split (line : Bytes) : List Bytes := (splitFields line).rdropWhile (·.isEmpty)

/-- `m{^\d+$}`. -/
def isNumber (s : Bytes) : Bool := s ≠ [] ∧ s.all (isDigit 10)

/-- `m{^# base timestamp: (\d+)}`. -/
def baseTimestampOf (line : Bytes) : Option Bytes :=
  if (ascii "# base timestamp: ").isPrefixOf line then
    let digits := (line.drop (ascii "# base timestamp: ").length).takeWhile (isDigit 10)
    if digits = [] then none else some digits
  else none

/-- An event, its time counted from the base timestamp. -/
structure GraphEvent where
  timestamp : Int
  eventType : Bytes
  numBytes : Nat
  delay : Option ℚ
  deriving DecidableEq

structure Graph where
  baseTimestamp : Option Nat := none
  events : List GraphEvent := []
  deriving DecidableEq

namespace Graph

/-- What a string is as a number to Perl. -/
abbrev Numify := Bytes → ℚ

/-- A departure also has a delay. -/
def departure (numify : Numify) (g : Graph) (timestamp : Int) (eventType : Bytes) (numBytes : Nat) :
    Option Bytes → Except Bytes Graph
  | none => .error (ascii "Departure format: timestamp - num_bytes delay")
  | some delay =>
    if numify delay < 0 then .error (ascii "Invalid delay: " ++ delay)
    else if timestamp - numify delay < 0 then .error (ascii "Invalid timestamp and delay")
    else .ok { g with events := g.events ++ [⟨timestamp, eventType, numBytes, some (numify delay)⟩] }

/-- The event on a line. -/
def event (numify : Numify) (g : Graph) (timestamp eventType numBytes : Bytes) (delay : Option Bytes) : Except Bytes Graph :=
  if !isNumber timestamp then .error (ascii "Invalid timestamp: " ++ timestamp)
  else if !isNumber numBytes then .error (ascii "Invalid byte count: " ++ numBytes)
  else
    match g.baseTimestamp with
    | none => .error (ascii "logfile is missing base timestamp")
    | some base =>
      let time : Int := numeral 10 timestamp - base
      if eventType = ascii "+" ∨ eventType = ascii "#" then
        .ok { g with events := g.events ++ [⟨time, eventType, numeral 10 numBytes, none⟩] }
      else if eventType = ascii "-" then g.departure numify time eventType (numeral 10 numBytes) delay
      else .error (ascii "Unknown event type: " ++ eventType)

/-- A turn of the line loop; the error is what the script dies of. -/
def line (numify : Numify) (g : Graph) (line : Bytes) : Except Bytes Graph :=
  match baseTimestampOf line with
  | some digits =>
    if g.baseTimestamp.isSome then .error (ascii "base timestamp multiply defined")
    else .ok { g with baseTimestamp := some (numeral 10 digits) }
  | none =>
    if line.head? = some 35 then .ok g
    else
      match split line with
      | timestamp :: eventType :: numBytes :: fields => g.event numify timestamp eventType numBytes fields.head?
      | _ => .error (ascii "Format: timestamp event_type num_bytes [delay]")

/-- The line loop over a file. -/
def read (numify : Numify) (content : Bytes) : Except Bytes Graph := (lines content).foldlM (line numify) {}

end Graph

/-! ## Lines -/

theorem getlines_line : ∀ {l : Bytes} (line rest : Bytes), 10 ∉ l → getlines line (l ++ 10 :: rest) = (line ++ l) :: getlines [] rest
  | [], line, rest, _ => by
    rw [List.append_nil]
    rfl
  | b :: l, line, rest, h => by
    rw [List.mem_cons, not_or] at h
    rw [List.cons_append, getlines, if_neg (Ne.symm h.1), getlines_line (line ++ [b]) rest h.2, List.append_assoc]
    rfl

/-- What is written line by line is read line by line. -/
theorem lines_written : ∀ {ls : List Bytes}, (∀ l ∈ ls, 10 ∉ l) → lines (written ls) = ls
  | [], _ => rfl
  | l :: ls, h => by
    have ih := lines_written fun l' hl' => h l' (List.mem_cons_of_mem _ hl')
    unfold lines written at ih ⊢
    rw [List.flatMap_cons, List.append_assoc, List.singleton_append, getlines_line [] _ (h l (List.mem_cons_self ..)), ih]
    rfl

theorem not_mem_getlines : ∀ {x line : Bytes}, 10 ∉ line → ∀ l ∈ getlines line x, 10 ∉ l
  | [], line, hline, l, hl => by
    unfold getlines at hl
    split at hl
    · cases hl
    · rwa [List.mem_singleton.1 hl]
  | b :: x, line, hline, l, hl => by
    unfold getlines at hl
    split at hl
    · rcases List.mem_cons.1 hl with rfl | hl
      · exact hline
      · exact not_mem_getlines List.not_mem_nil l hl
    · rename_i hb
      refine not_mem_getlines ?_ l hl
      rw [List.mem_append, List.mem_singleton, not_or]
      exact ⟨hline, Ne.symm hb⟩

/-- A line that is read has no line end in it. -/
theorem not_mem_lines {x l : Bytes} (h : l ∈ lines x) : 10 ∉ l := not_mem_getlines List.not_mem_nil l h

/-! ## Fields -/

/-- A field of a line. -/
structure Field (w : Bytes) : Prop where
  nonempty : w ≠ []
  noSpace : ∀ b ∈ w, isSpace b = false

/-- Fields with a blank between any two. -/
def joined : List Bytes → Bytes
  | [] => []
  | [w] => w
  | w :: ws => w ++ 32 :: joined ws

theorem splitFields_field : ∀ {w : Bytes}, (∀ b ∈ w, isSpace b = false) → splitFields w = [w]
  | [], _ => rfl
  | b :: w, h => by
    have ih := splitFields_field fun c hc => h c (List.mem_cons_of_mem _ hc)
    unfold splitFields
    rw [h b (List.mem_cons_self ..), ih]
    rfl

theorem splitFields_blank {rest : Bytes} (hrest : (rest.head?.map isSpace).getD false = false) :
    ∀ {w : Bytes}, (∀ b ∈ w, isSpace b = false) → splitFields (w ++ 32 :: rest) = w :: splitFields rest
  | [], _ => by
    rw [List.nil_append, splitFields, hrest]
    rfl
  | b :: w, h => by
    have ih := splitFields_blank hrest fun c hc => h c (List.mem_cons_of_mem _ hc)
    rw [List.cons_append, splitFields, h b (List.mem_cons_self ..), ih]
    rfl

theorem Field.head {w : Bytes} (h : Field w) (rest : Bytes) : ((w ++ rest).head?.map isSpace).getD false = false := by
  obtain ⟨b, bs, rfl⟩ := List.exists_cons_of_ne_nil h.nonempty
  exact h.noSpace b (List.mem_cons_self ..)

theorem splitFields_joined : ∀ {ws : List Bytes}, ws ≠ [] → (∀ w ∈ ws, Field w) → splitFields (joined ws) = ws
  | [], hne, _ => absurd rfl hne
  | [w], _, h => splitFields_field (h w (List.mem_singleton.2 rfl)).noSpace
  | w :: v :: ws, _, h => by
    have hv : Field v := h v (by simp)
    have hhead : ((joined (v :: ws)).head?.map isSpace).getD false = false := by
      cases ws with
      | nil =>
        have := hv.head []
        rwa [List.append_nil] at this
      | cons u us => exact hv.head _
    have ih := splitFields_joined (List.cons_ne_nil v ws) fun u hu => h u (List.mem_cons_of_mem _ hu)
    unfold joined
    rw [splitFields_blank hhead (h w (List.mem_cons_self ..)).noSpace, ih]

/-- Fields are split where they were joined. -/
theorem split_joined {ws : List Bytes} (hne : ws ≠ []) (h : ∀ w ∈ ws, Field w) : split (joined ws) = ws := by
  unfold split
  rw [splitFields_joined hne h, List.rdropWhile_eq_self_iff]
  intro hne'
  simpa using (h _ (List.getLast_mem hne')).nonempty

theorem field_repr (n : Nat) : Field (ascii n.repr) := by
  have hdecimal := decimal_repr n
  exact ⟨hdecimal.nonempty, fun b hb => isSpace_digit (List.all_eq_true.1 hdecimal.digits b hb)⟩

theorem isNumber_repr (n : Nat) : isNumber (ascii n.repr) = true := by
  have hdecimal := decimal_repr n
  unfold isNumber
  exact decide_eq_true ⟨hdecimal.nonempty, hdecimal.digits⟩

/-! ## Reading a line back -/

namespace LogLine

/-- The event that a line records. -/
def event (base : Nat) : LogLine → GraphEvent
  | .arrival time size => ⟨(time : Int) - base, ascii "+", size, none⟩
  | .opportunity time size => ⟨(time : Int) - base, ascii "#", size, none⟩
  | .departure time size delay _ _ => ⟨(time : Int) - base, ascii "-", size, some (delay : ℚ)⟩

/-- A departing packet has come since the base timestamp. -/
def Since (base : Nat) : LogLine → Prop
  | .arrival _ _ => True
  | .opportunity _ _ => True
  | .departure time _ delay _ _ => base + delay ≤ time

/-- What kind of event it is. -/
def mark : LogLine → Bytes
  | .arrival _ _ => ascii "+"
  | .opportunity _ _ => ascii "#"
  | .departure _ _ _ _ _ => ascii "-"

def time : LogLine → Nat
  | .arrival time _ => time
  | .opportunity time _ => time
  | .departure time _ _ _ _ => time

def size : LogLine → Nat
  | .arrival _ size => size
  | .opportunity _ size => size
  | .departure _ size _ _ _ => size

/-- The fields after the size. -/
def more : LogLine → List Nat
  | .arrival _ _ => []
  | .opportunity _ _ => []
  | .departure _ _ delay src dst => [delay, src, dst]

theorem text_eq (l : LogLine) : l.text = joined (ascii l.time.repr :: l.mark :: ascii l.size.repr :: l.more.map fun n => ascii n.repr) := by
  cases l <;> simp [text, joined, time, mark, size, more, ascii]

theorem split_text (l : LogLine) :
    split l.text = ascii l.time.repr :: l.mark :: ascii l.size.repr :: l.more.map fun n => ascii n.repr := by
  have hmark : Field l.mark := by
    cases l with
    | arrival => exact (⟨by decide +kernel, by decide +kernel⟩ : Field (ascii "+"))
    | opportunity => exact (⟨by decide +kernel, by decide +kernel⟩ : Field (ascii "#"))
    | departure => exact (⟨by decide +kernel, by decide +kernel⟩ : Field (ascii "-"))
  rw [text_eq]
  refine split_joined (List.cons_ne_nil _ _) fun w hw => ?_
  simp only [List.mem_cons, List.mem_map] at hw
  rcases hw with rfl | rfl | rfl | ⟨n, -, rfl⟩
  · exact field_repr _
  · exact hmark
  · exact field_repr _
  · exact field_repr n

theorem head_text (l : LogLine) : l.text.head? ≠ some 35 := by
  have hdecimal := decimal_repr l.time
  obtain ⟨b, bs, hb⟩ := List.exists_cons_of_ne_nil hdecimal.nonempty
  have hdigit : isDigit 10 b = true := List.all_eq_true.1 hdecimal.digits b (by rw [hb]; exact List.mem_cons_self ..)
  have hhead : l.text.head? = some b := by
    rw [text_eq, hb]
    rfl
  rw [hhead]
  intro h
  cases h
  exact absurd hdigit (by decide)

end LogLine

theorem baseTimestampOf_none {x : Bytes} (h : x.head? ≠ some 35) : baseTimestampOf x = none := by
  unfold baseTimestampOf
  rw [if_neg]
  intro hp
  obtain ⟨post, hpost⟩ := List.isPrefixOf_iff_prefix.1 hp
  exact h (by rw [← hpost]; rfl)

namespace Graph

variable {numify : Numify}

/-- The loop reads back the event that was logged. -/
theorem line_text (hnumify : ∀ ds n, Decimal ds n → numify ds = n) {g : Graph} {base : Nat} {l : LogLine}
    (hbase : g.baseTimestamp = some base) (hsince : l.Since base) :
    g.line numify l.text = .ok { g with events := g.events ++ [l.event base] } := by
  have hnumber : ∀ n : Nat, numeral 10 (ascii n.repr) = n := fun n => (decimal_repr n).number
  obtain ⟨baseTimestamp, events⟩ := g
  dsimp only at hbase
  subst hbase
  unfold line
  rw [baseTimestampOf_none l.head_text]
  dsimp only
  rw [if_neg l.head_text, l.split_text]
  dsimp only
  unfold event
  rw [isNumber_repr, isNumber_repr, hnumber, hnumber]
  cases l with
  | arrival time size => rfl
  | opportunity time size => rfl
  | departure time size delay src dst =>
    have hdelay : numify (ascii delay.repr) = delay := hnumify _ _ (decimal_repr delay)
    have hpast : ¬ (((time : Int) - base : Int) : ℚ) - (delay : ℚ) < 0 := by
      have hle : ((base + delay : Nat) : ℚ) ≤ (time : ℚ) := by exact_mod_cast hsince
      push_cast at hle ⊢
      linarith
    have hnonneg : ¬ (delay : ℚ) < 0 := not_lt.2 (Nat.cast_nonneg delay)
    show departure numify ⟨some base, events⟩ ((time : Int) - base) (ascii "-") size (some (ascii delay.repr)) = _
    unfold departure
    dsimp only
    rw [hdelay, if_neg hnonneg, if_neg hpast]
    rfl

theorem lines_text (hnumify : ∀ ds n, Decimal ds n → numify ds = n) {base : Nat} : ∀ {ls : List LogLine} {g : Graph},
    g.baseTimestamp = some base → (∀ l ∈ ls, l.Since base) →
    (ls.map LogLine.text).foldlM (line numify) g = .ok { g with events := g.events ++ ls.map (LogLine.event base) }
  | [], g, _, _ => by
    simp only [List.map_nil, List.append_nil]
    rfl
  | l :: ls, g, hbase, hsince => by
    rw [List.map_cons, List.foldlM_cons, line_text hnumify hbase (hsince l (List.mem_cons_self ..)), Run.ok_bind,
      lines_text hnumify (by exact hbase) fun l' hl' => hsince l' (List.mem_cons_of_mem _ hl')]
    simp only [List.map_cons, List.append_assoc, List.cons_append, List.nil_append]

theorem line_comment {g : Graph} {l : Bytes} (h : l.head? = some 35) (hother : baseTimestampOf l = none) :
    g.line numify l = .ok g := by
  unfold line
  rw [hother]
  exact if_pos h

theorem line_base (events : List GraphEvent) (base : Nat) :
    line numify ⟨none, events⟩ (ascii "# base timestamp: " ++ ascii base.repr) = .ok ⟨some base, events⟩ := by
  have hdecimal := decimal_repr base
  have hdigits : baseTimestampOf (ascii "# base timestamp: " ++ ascii base.repr) = some (ascii base.repr) := by
    unfold baseTimestampOf
    rw [if_pos (List.isPrefixOf_iff_prefix.2 (List.prefix_append _ _)), List.drop_left,
      List.takeWhile_eq_self_iff.2 (List.all_eq_true.1 hdecimal.digits)]
    exact if_neg hdecimal.nonempty
  unfold line
  rw [hdigits]
  dsimp only
  rw [hdecimal.number]
  rfl

end Graph

/-! ## The log as a whole -/

theorem not_mem_repr (n : Nat) : 10 ∉ ascii n.repr := fun h => absurd ((field_repr n).noSpace 10 h) (by decide)

theorem LogLine.not_mem_text (l : LogLine) : 10 ∉ l.text := by
  cases l with
  | arrival time size =>
    simp only [text, List.mem_append, not_or, not_mem_repr, not_false_eq_true, and_true, true_and]
    decide
  | opportunity time size =>
    simp only [text, List.mem_append, not_or, not_mem_repr, not_false_eq_true, and_true, true_and]
    decide
  | departure time size delay src dst =>
    simp only [text, List.mem_append, not_or, not_mem_repr, not_false_eq_true, and_true, true_and]
    decide

namespace Invocation

variable {i : Invocation} {queue : Bytes}

theorem not_mem_comments (hargs : ∀ arg ∈ i.argv, 10 ∉ arg) (hfront : ∀ p ∈ i.shellPrefix, 10 ∉ p) (hqueue : 10 ∉ queue) :
    ∀ l ∈ i.comments queue, 10 ∉ l := by
  -- each part of a comment is without a line end
  have hlink : 10 ∉ i.linkName := by
    rcases i.link with h | h
    · rw [h]; decide
    · rw [h]; decide
  have hfile : 10 ∉ i.filename := hargs _ i.filename_mem
  have hlog : 10 ∉ i.logfile := by
    obtain ⟨arg, harg, hsuffix⟩ := i.logfile_mem
    exact fun h => hargs arg harg (hsuffix.subset h)
  have hcommand : 10 ∉ commandLine i.argv := by
    rw [mem_commandLine (by decide) (by decide) (by decide)]
    rintro ⟨arg, harg, h⟩
    exact hargs arg harg h
  intro l hl
  unfold comments commandComment at hl
  simp only [List.mem_append, List.mem_cons, List.not_mem_nil, or_false, Option.mem_toList, Option.map_eq_some_iff] at hl
  rcases hl with (rfl | rfl | rfl | rfl | rfl) | ⟨p, hp, rfl⟩
  · simp only [List.mem_append, not_or, hlink, hfile, hlog, not_false_eq_true, and_true]
    decide
  · simp only [List.mem_append, not_or, hcommand, not_false_eq_true, and_true]
    decide
  · simp only [List.mem_append, not_or, hqueue, not_false_eq_true, and_true]
    decide
  · simp only [List.mem_append, not_or, not_mem_repr, not_false_eq_true, and_true]
    decide
  · simp only [List.mem_append, not_or, not_mem_repr, not_false_eq_true, and_true]
    decide
  · simp only [List.mem_append, not_or, hfront p hp, not_false_eq_true, and_true]
    decide

theorem head_comments : ∀ l ∈ i.comments queue, l.head? = some 35 := by
  intro l hl
  unfold comments commandComment at hl
  simp only [List.mem_append, List.mem_cons, List.not_mem_nil, or_false, Option.mem_toList, Option.map_eq_some_iff] at hl
  rcases hl with (rfl | rfl | rfl | rfl | rfl) | ⟨p, -, rfl⟩ <;> rfl

/-- The comments give the loop its base timestamp and nothing else. -/
theorem read_comments (numify : Graph.Numify) :
    (i.comments queue).foldlM (Graph.line numify) {} = .ok ⟨some i.baseTimestamp, []⟩ := by
  have hother : ∀ {g : Graph} {start rest : Bytes}, start.head? = some 35 →
      (ascii "# base timestamp: ").isPrefixOf (start ++ rest) = false → g.line numify (start ++ rest) = .ok g := by
    intro g start rest hhead hnot
    refine Graph.line_comment ?_ ?_
    · cases start with
      | nil => cases hhead
      | cons b bs => exact hhead
    · unfold baseTimestampOf
      rw [hnot]
      rfl
  have hconfig : ∀ g : Graph, (i.shellPrefix.map (ascii "# mahimahi config: " ++ ·)).toList.foldlM (Graph.line numify) g = .ok g := by
    intro g
    cases i.shellPrefix with
    | none => rfl
    | some p =>
      rw [Option.map_some, Option.toList_some, List.foldlM_cons, hother rfl rfl]
      rfl
  unfold comments commandComment
  rw [List.foldlM_append, List.foldlM_cons, List.append_assoc, List.append_assoc, List.append_assoc, List.append_assoc,
    hother rfl rfl, Run.ok_bind, List.foldlM_cons, hother rfl rfl, Run.ok_bind, List.foldlM_cons, hother rfl rfl,
    Run.ok_bind, List.foldlM_cons, hother rfl rfl, Run.ok_bind, List.foldlM_cons, Graph.line_base, Run.ok_bind,
    List.foldlM_nil, Run.pure_ok, Run.ok_bind, hconfig]

/-- Without line ends in what goes into the comments, the loop reads back the events that were logged. -/
theorem read_log {numify : Graph.Numify} (hnumify : ∀ ds n, Decimal ds n → numify ds = n)
    (hargs : ∀ arg ∈ i.argv, 10 ∉ arg) (hfront : ∀ p ∈ i.shellPrefix, 10 ∉ p) (hqueue : 10 ∉ queue) {ls : List LogLine}
    (hsince : ∀ l ∈ ls, l.Since i.baseTimestamp) :
    lines (i.log queue ls) = i.comments queue ++ ls.map LogLine.text ∧
      Graph.read numify (i.log queue ls) = .ok ⟨some i.baseTimestamp, ls.map (LogLine.event i.baseTimestamp)⟩ := by
  have hlines : lines (i.log queue ls) = i.comments queue ++ ls.map LogLine.text := by
    refine lines_written fun l hl => ?_
    rcases List.mem_append.1 hl with hl | hl
    · exact not_mem_comments hargs hfront hqueue l hl
    · obtain ⟨l, -, rfl⟩ := List.mem_map.1 hl
      exact l.not_mem_text
  refine ⟨hlines, ?_⟩
  unfold Graph.read
  rw [hlines, List.foldlM_append, read_comments, Run.ok_bind, Graph.lines_text hnumify rfl hsince, List.nil_append]

end Invocation

end AbcMahimahi.Frontend
