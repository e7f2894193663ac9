import AffinityGraph.CpuList
import AffinityGraph.Graph
import AffinityGraph.Ranking
import AffinityGraph.Streams
/-!
# Collector — the threads of a process, read from `/proc`

`ProcCollector::sample` and `numa_pages`.  A `Thread` is what the kernel knows of one, and `statText` and the texts beside it
are how its files show that.  Whatever a thread is called, and whichever of them end while the directory is read, what is
sampled is what is there (`sample_reads`).
-/
namespace AffinityGraph
namespace ProcCollector

open CppText (Text IsWord words stoi stoull extract find rfind shown Reads Digits ended)

/-! ## The code -/

/-- The files under one name of the task directory when the loop comes to it; one that cannot be opened is empty. -/
structure TaskFiles where
  name : Text
  stat : Text
  schedstat : Text
  status : Text
  cgroup : Text
  /-- `monotonic_ns()`. -/
  readAt : Nat

/-- `stat.substr(open + 1, close - open - 1)`: a count below 0 is one without end. -/
def command (stat : Text) (opens closes : Nat) : Text :=
  if opens < closes then (stat.drop (opens + 1)).take (closes - opens - 1) else stat.drop (opens + 1)

/-- The name in the first line of `stat`, and the fields behind it. -/
def statFields (stat : Text) : Option (Text × List Text) := do
  let line ← (CppText.lines '\n' stat).head?
  let opens ← find '(' line
  let closes ← rfind ')' line
  if closes + 2 ≥ line.length then none
  else if (words (line.drop (closes + 2))).length < 37 then none
  else some (command line opens closes, words (line.drop (closes + 2)))

/-- `schedstat >> runtime_ns >> runqueue_ns`: a stream that has failed leaves the second at 0. -/
def schedstat (t : Text) : Nat × Nat := ((extract t).1, ((extract t).2.map (fun rest => (extract rest).1)).getD 0)

/-- One line of `status`. -/
def statusLine (sample : ThreadSample) (line : Text) : Except String ThreadSample :=
  match find ':' line with
  | none => .ok sample
  | some colon =>
    let key := line.take colon
    let body := line.drop (colon + 1)
    if key = "voluntary_ctxt_switches".toList then do
      let switches ← stoull body
      return { sample with voluntarySwitches := switches }
    else if key = "nonvoluntary_ctxt_switches".toList then do
      let switches ← stoull body
      return { sample with involuntarySwitches := switches }
    else if key = "Cpus_allowed_list".toList then
      -- what the list throws is caught, and the sample stays as it is
      match CpuList.parseCpuList body with
      | .ok cpus => .ok { sample with allowedCpus := cpus }
      | .error _ => .ok sample
    else .ok sample

/-- What is behind the last colon of a line, if it has one. -/
def cgroupPath (line : Text) : Option String := (rfind ':' line).map (fun colon => String.ofList (line.drop (colon + 1)))

/-- One turn of the loop: nothing for a name that is no number or a `stat` that does not have the fields. -/
def sampleTask (tgid : Int) (task : TaskFiles) : Except String (Option ThreadSample) :=
  match stoi task.name with
  | .error _ => .ok none
  | .ok tid =>
    match statFields task.stat with
    | none => .ok none
    | some (comm, values) => do
      let starttime ← stoull (values.getD 19 [])
      let recentCpu ← stoi (values.getD 36 [])
      let sample ← (CppText.lines '\n' task.status).foldlM statusLine
        { identity := ⟨tgid, tid, starttime⟩, timestampNs := task.readAt, runtimeNs := (schedstat task.schedstat).1,
          runqueueNs := (schedstat task.schedstat).2, recentCpu := recentCpu, state := (values.getD 0 []).headD '?',
          comm := String.ofList comm }
      return some { sample with cgroups := (CppText.lines '\n' task.cgroup).filterMap cgroupPath }

/-- `ProcCollector::sample`. -/
def sample (tgid : Int) (tasks : List TaskFiles) : Except String (List ThreadSample) := do
  let samples ← tasks.mapM (sampleTask tgid)
  return samples.reduceOption.insertionSort (fun a b => a.identity.tid ≤ b.identity.tid)

/-! ## What the kernel writes -/

/-- A line of a key and a text. -/
structure Entry where
  key : Text
  body : Text
  key_plain : ':' ∉ key ∧ '\n' ∉ key
  body_plain : '\n' ∉ body

/-- How an entry of `status` is written. -/
def Entry.line (e : Entry) : Text := e.key ++ ':' :: '\t' :: e.body

/-- The keys that are read. -/
def read : List Text :=
  ["voluntary_ctxt_switches".toList, "nonvoluntary_ctxt_switches".toList, "Cpus_allowed_list".toList]

/-- What the kernel knows of a thread and shows in its files.  A name has no end of line, and may have anything else. -/
structure Thread where
  tid : Nat
  comm : Text
  state : Char
  /-- The fields from the parent's PID to `itrealvalue`. -/
  early : List Int
  starttime : Nat
  /-- The fields from the size of the address space to the signal of the exit. -/
  middle : List Int
  cpu : Nat
  late : List Int
  runtime : Nat
  runqueue : Nat
  slices : Nat
  allowed : Mask
  allowedText : Text
  voluntary : Nat
  involuntary : Nat
  /-- The lines of `status` before the list of CPUs, and those behind it. -/
  front : List Entry
  back : List Entry
  /-- The control groups: the hierarchy with its controllers, and the path. -/
  groups : List (Text × Text)
  tid_fits : tid < 2 ^ 31
  comm_plain : '\n' ∉ comm
  state_plain : IsWord [state] ∧ state ≠ ')'
  early_length : early.length = 18
  middle_length : middle.length = 16
  starttime_fits : starttime < 2 ^ 64
  cpu_fits : cpu < 2 ^ 31
  times_fit : runtime < 2 ^ 64 ∧ runqueue < 2 ^ 64
  allowed_spelled : CpuList.Grammar allowedText allowed ∧ '\n' ∉ allowedText
  switches_fit : voluntary < 2 ^ 64 ∧ involuntary < 2 ^ 64
  others : ∀ e ∈ front ++ back, e.key ∉ read
  groups_plain : ∀ g ∈ groups, '\n' ∉ g.1 ∧ '\n' ∉ g.2 ∧ ':' ∉ g.2

namespace Thread

variable (th : Thread)

/-- The fields behind the name. -/
def fields : List Text :=
  [th.state] :: (th.early.map shown ++ shown th.starttime :: (th.middle.map shown ++ shown th.cpu :: th.late.map shown))

def statText : Text :=
  ended '\n' [shown th.tid ++ ' ' :: '(' :: (th.comm ++ ')' :: ' ' :: [' '].intercalate th.fields)]

def schedstatText : Text :=
  shown th.runtime ++ ' ' :: (shown th.runqueue ++ ' ' :: (shown th.slices ++ ['\n']))

def statusText : Text :=
  ended '\n' (th.front.map Entry.line ++ ("Cpus_allowed_list".toList ++ ':' :: '\t' :: th.allowedText) ::
    (th.back.map Entry.line ++
      ["voluntary_ctxt_switches".toList ++ ':' :: '\t' :: shown th.voluntary,
        "nonvoluntary_ctxt_switches".toList ++ ':' :: '\t' :: shown th.involuntary]))

def cgroupText : Text := ended '\n' (th.groups.map (fun g => g.1 ++ ':' :: g.2))

end Thread

/-- A thread as the loop comes to it: it can end before the later files are opened. -/
structure Glimpse where
  thread : Thread
  readAt : Nat
  schedstat : Bool
  status : Bool
  cgroup : Bool

namespace Glimpse

def files (g : Glimpse) : TaskFiles where
  name := shown g.thread.tid
  stat := g.thread.statText
  schedstat := if g.schedstat then g.thread.schedstatText else []
  status := if g.status then g.thread.statusText else []
  cgroup := if g.cgroup then g.thread.cgroupText else []
  readAt := g.readAt

/-- What a sample of it is to say. -/
def sampled (tgid : Int) (g : Glimpse) : ThreadSample where
  identity := ⟨tgid, g.thread.tid, g.thread.starttime⟩
  timestampNs := g.readAt
  runtimeNs := if g.schedstat then g.thread.runtime else 0
  runqueueNs := if g.schedstat then g.thread.runqueue else 0
  voluntarySwitches := if g.status then g.thread.voluntary else 0
  involuntarySwitches := if g.status then g.thread.involuntary else 0
  recentCpu := g.thread.cpu
  state := g.thread.state
  comm := String.ofList g.thread.comm
  allowedCpus := if g.status then g.thread.allowed else []
  cgroups := if g.cgroup then g.thread.groups.map (fun p => String.ofList p.2) else []

end Glimpse

/-! ## Reading it back -/

theorem shown_negSucc (m : Nat) : shown (Int.negSucc m) = '-' :: shown ((m + 1 : Nat) : Int) := by
  rw [CppText.shown_ofNat]
  change ("-" ++ Nat.repr (m + 1)).toList = _
  rw [String.toList_append, Nat.toList_repr]
  rfl

/-- A number that is written has digits, and perhaps a sign before them. -/
theorem shown_cases (n : Int) : Digits (shown n) ∨ ∃ ds, shown n = '-' :: ds ∧ Digits ds := by
  cases n with
  | ofNat k => exact Or.inl (CppText.digits_shown (Int.natCast_nonneg k)).1
  | negSucc m => exact Or.inr ⟨_, shown_negSucc m, (CppText.digits_shown (Int.natCast_nonneg (m + 1))).1⟩

theorem word_shown (n : Int) : IsWord (shown n) := by
  rcases shown_cases n with h | ⟨ds, h, hds⟩
  · exact h.word
  · rw [h]
    refine ⟨List.cons_ne_nil _ _, fun c hc => ?_⟩
    rcases List.mem_cons.1 hc with rfl | hc
    · decide
    · exact hds.word.2 c hc

theorem notMem_shown {c : Char} (hdigit : c.isDigit = false) (hsign : c ≠ '-') (n : Int) : c ∉ shown n := by
  rcases shown_cases n with h | ⟨ds, h, hds⟩
  · exact h.notMem hdigit
  · rw [h, List.mem_cons, not_or]
    exact ⟨hsign, hds.notMem hdigit⟩

theorem stoi_shown {n : Nat} (h : n < 2 ^ 31) : stoi (shown n) = .ok (n : Int) := by
  obtain ⟨hd, hv⟩ := CppText.digits_shown (Int.natCast_nonneg n)
  have hreads := hd.reads
  rw [hv] at hreads
  exact CppText.stoi_eq_ok.2 ⟨hreads, by omega, by exact_mod_cast h⟩

theorem stoull_shown (spaces : Text) {n : Nat} (hspaces : ∀ c ∈ spaces, CppText.isSpace c = true) (h : n < 2 ^ 64) :
    stoull (spaces ++ shown n) = .ok n := by
  obtain ⟨hd, hv⟩ := CppText.digits_shown (Int.natCast_nonneg n)
  exact CppText.stoull_eq_ok ⟨spaces, [], shown n, [], by simp, hspaces, hd, by simp, Or.inl ⟨Or.inl rfl, hv.symm⟩⟩ h

theorem notMem_intercalate {c s : Char} (hs : c ≠ s) : ∀ {parts : List Text}, (∀ p ∈ parts, c ∉ p) →
    c ∉ [s].intercalate parts
  | [], _ => by simp
  | [p], h => by
    rw [List.intercalate_singleton]
    exact h p List.mem_cons_self
  | p :: q :: parts, h => by
    have hrest : c ∉ [s].intercalate (q :: parts) :=
      notMem_intercalate hs (fun r hr => h r (List.mem_cons_of_mem p hr))
    rw [List.intercalate_cons_of_ne_nil (List.cons_ne_nil q parts), List.mem_append, List.mem_append, List.mem_singleton]
    rintro ((hin | hin) | hin)
    · exact h p List.mem_cons_self hin
    · exact hs hin
    · exact hrest hin

namespace Thread

variable (th : Thread)

end Thread

namespace Thread

variable (th : Thread)

end Thread

/-! ## The directory -/

/-- What the loop finds under a name. -/
def found : TaskFiles ⊕ Glimpse → TaskFiles
  | .inl task => task
  | .inr g => g.files

/-- A thread whose name has parentheses in it. -/
def tangled : Thread where
  tid := 8
  comm := "a) (b".toList
  state := 'S'
  early := List.replicate 18 (-1)
  starttime := 123
  middle := List.replicate 16 0
  cpu := 2
  late := [0]
  runtime := 5
  runqueue := 6
  slices := 7
  allowed := [0, 1, 2]
  allowedText := "0-2".toList
  voluntary := 3
  involuntary := 4
  front := []
  back := []
  groups := [("0:".toList, "/work".toList)]
  tid_fits := by decide
  comm_plain := by decide
  state_plain := by decide
  early_length := by decide
  middle_length := by decide
  starttime_fits := by decide
  cpu_fits := by decide
  times_fit := by decide
  allowed_spelled := ⟨CpuList.grammar_iff_parse.2 (by decide +kernel), by decide⟩
  switches_fit := by decide
  others := by simp
  groups_plain := by decide

/-- The thread that the process began with, in the same state. -/
def first : Thread := { tangled with tid := 7, comm := "main".toList, tid_fits := by decide, comm_plain := by decide }

/-- One word of `numa_maps`: `N<node>=<pages>`; what the two numbers throw is caught, before the map is touched. -/
def numaWord (result : OrdMap Int Nat) (token : Text) : OrdMap Int Nat :=
  if token.length < 4 ∨ token.head? ≠ some 'N' then result
  else
    match find '=' token with
    | none => result
    | some equal =>
      match stoull (token.drop (equal + 1)), stoi ((token.drop 1).take (equal - 1)) with
      | .ok pages, .ok node => result.insert node ((result.getD node 0 + pages) % 2 ^ 64)
      | _, _ => result

/-- `ProcCollector::numa_pages`. -/
def numaPages (numaMaps : Text) : OrdMap Int Nat :=
  (CppText.lines '\n' numaMaps).foldl (fun result line => (words line).foldl numaWord result) ∅

/-- A mapping: what is said of it, and its pages on each node that has some. -/
structure Mapping where
  front : List Text
  pages : List (Nat × Nat)
  back : List Text
  others : ∀ w ∈ front ++ back, IsWord w ∧ w.head? ≠ some 'N'
  pages_fit : ∀ p ∈ pages, p.1 < 2 ^ 31 ∧ p.2 < 2 ^ 64

/-- How the pages of a node are written. -/
def pagesText (p : Nat × Nat) : Text := 'N' :: (shown p.1 ++ '=' :: shown p.2)

namespace Mapping

def line (m : Mapping) : Text := [' '].intercalate (m.front ++ (m.pages.map pagesText ++ m.back))

end Mapping

/-- The pages that mappings have on a node. -/
def pagesOn (node : Int) (ps : List (Nat × Nat)) : Nat := ((ps.filter (fun p => decide ((p.1 : Int) = node))).map Prod.snd).sum

/-- A map holds the pages of the nodes that have been read, as 64 bits hold them. -/
def Counted (ps : List (Nat × Nat)) (result : OrdMap Int Nat) : Prop :=
  ∀ node : Int, result.find? node =
    if ∃ p ∈ ps, (p.1 : Int) = node then some (pagesOn node ps % 2 ^ 64) else none

theorem numaWord_other {w : Text} (result : OrdMap Int Nat) (h : w.head? ≠ some 'N') : numaWord result w = result :=
  if_pos (Or.inr h)

theorem foldl_numaWord_others {ws : List Text} (result : OrdMap Int Nat) (h : ∀ w ∈ ws, w.head? ≠ some 'N') :
    ws.foldl numaWord result = result := by
  induction ws generalizing result with
  | nil => rfl
  | cons w ws ih =>
    rw [List.foldl_cons, numaWord_other result (h w List.mem_cons_self)]
    exact ih result (fun v hv => h v (List.mem_cons_of_mem w hv))

theorem numaWord_pages (result : OrdMap Int Nat) {p : Nat × Nat} (h : p.1 < 2 ^ 31 ∧ p.2 < 2 ^ 64) :
    numaWord result (pagesText p) = result.insert p.1 ((result.getD p.1 0 + p.2) % 2 ^ 64) := by
  have hlong : ¬ ((pagesText p).length < 4 ∨ (pagesText p).head? ≠ some 'N') := by
    have hnode := List.length_pos_of_ne_nil (word_shown p.1).1
    have hpages := List.length_pos_of_ne_nil (word_shown p.2).1
    unfold pagesText
    simp only [List.length_cons, List.length_append, List.head?_cons, ne_eq, not_true_eq_false, or_false]
    omega
  have hfind : find '=' (pagesText p) = some (shown p.1).length.succ := by
    have h := CppText.find_eq (c := '=') (a := 'N' :: shown p.1) (b := shown p.2) (by
      rw [List.mem_cons, not_or]
      exact ⟨by decide, notMem_shown (by decide) (by decide) _⟩)
    exact h
  have hnode : ((pagesText p).drop 1).take ((shown p.1).length.succ - 1) = shown p.1 := List.take_left
  have hpages : (pagesText p).drop ((shown p.1).length.succ + 1) = shown p.2 := by
    have hsplit : pagesText p = ('N' :: (shown p.1 ++ ['='])) ++ shown p.2 := by simp [pagesText]
    have hlength : ('N' :: (shown p.1 ++ ['='])).length = (shown p.1).length.succ + 1 := by simp
    rw [hsplit, ← hlength, List.drop_left]
  have hcount := stoull_shown [] (by simp) h.2
  rw [List.nil_append] at hcount
  unfold numaWord
  rw [if_neg hlong, hfind]
  dsimp only
  rw [hnode, hpages, hcount, stoi_shown h.1]

theorem Counted.next {ps : List (Nat × Nat)} {result : OrdMap Int Nat} (h : Counted ps result) (p : Nat × Nat) :
    Counted (ps ++ [p]) (result.insert p.1 ((result.getD p.1 0 + p.2) % 2 ^ 64)) := by
  intro node
  rw [OrdMap.find?_insert]
  by_cases hnode : (p.1 : Int) = node
  · have hsum : pagesOn node (ps ++ [p]) = pagesOn node ps + p.2 := by
      unfold pagesOn
      rw [List.filter_append, List.map_append, List.sum_append]
      simp [hnode]
    have hbefore : result.getD p.1 0 = pagesOn node ps % 2 ^ 64 := by
      unfold OrdMap.getD
      rw [hnode, h node]
      split
      · rfl
      · rename_i hnone
        have hempty : ps.filter (fun p => decide ((p.1 : Int) = node)) = [] := by
          rw [List.filter_eq_nil_iff]
          intro q hq hkey
          exact hnone ⟨q, hq, of_decide_eq_true hkey⟩
        unfold pagesOn
        rw [hempty]
        rfl
    rw [if_pos hnode, if_pos ⟨p, by simp, hnode⟩, hbefore, hsum, Nat.mod_add_mod]
  · have hsum : pagesOn node (ps ++ [p]) = pagesOn node ps := by
      unfold pagesOn
      rw [List.filter_append]
      simp [hnode]
    rw [if_neg hnode, h node, hsum]
    simp only [List.mem_append, List.mem_singleton, or_and_right, exists_or, exists_eq_left, hnode, or_false]

theorem Counted.pages {qs : List (Nat × Nat)} : ∀ {ps : List (Nat × Nat)} {result : OrdMap Int Nat}, Counted ps result →
    (∀ p ∈ qs, p.1 < 2 ^ 31 ∧ p.2 < 2 ^ 64) → Counted (ps ++ qs) ((qs.map pagesText).foldl numaWord result) := by
  induction qs with
  | nil =>
    intro ps result h _
    rw [List.append_nil]
    exact h
  | cons q qs ih =>
    intro ps result h hfit
    rw [List.map_cons, List.foldl_cons, numaWord_pages result (hfit q List.mem_cons_self)]
    have hrest := ih (h.next q) (fun p hp => hfit p (List.mem_cons_of_mem q hp))
    rwa [List.append_assoc, List.singleton_append] at hrest

theorem word_pagesText (p : Nat × Nat) : IsWord (pagesText p) := by
  refine ⟨List.cons_ne_nil _ _, fun c hc => ?_⟩
  unfold pagesText at hc
  rw [List.mem_cons, List.mem_append, List.mem_cons] at hc
  rcases hc with rfl | hc | rfl | hc
  · decide
  · exact (word_shown p.1).2 c hc
  · decide
  · exact (word_shown p.2).2 c hc

theorem Mapping.words_line (m : Mapping) : words m.line = m.front ++ (m.pages.map pagesText ++ m.back) := by
  refine CppText.words_intercalate (by decide) (fun w hw => ?_)
  rw [List.mem_append, List.mem_append, List.mem_map] at hw
  rcases hw with hw | ⟨p, -, rfl⟩ | hw
  · exact (m.others w (List.mem_append_left _ hw)).1
  · exact word_pagesText p
  · exact (m.others w (List.mem_append_right _ hw)).1

/-- A line adds the pages of its mapping. -/
theorem Counted.line {ps : List (Nat × Nat)} {result : OrdMap Int Nat} (h : Counted ps result) (m : Mapping) :
    Counted (ps ++ m.pages) ((words m.line).foldl numaWord result) := by
  have hfront : ∀ w ∈ m.front, w.head? ≠ some 'N' := fun w hw => (m.others w (List.mem_append_left _ hw)).2
  have hback : ∀ w ∈ m.back, w.head? ≠ some 'N' := fun w hw => (m.others w (List.mem_append_right _ hw)).2
  rw [m.words_line, List.foldl_append, List.foldl_append, foldl_numaWord_others result hfront,
    foldl_numaWord_others _ hback]
  exact h.pages m.pages_fit

theorem counted_lines : ∀ {ms : List Mapping} {ps : List (Nat × Nat)} {result : OrdMap Int Nat}, Counted ps result →
    Counted (ps ++ ms.flatMap Mapping.pages)
      ((ms.map Mapping.line).foldl (fun result line => (words line).foldl numaWord result) result)
  | [], ps, result, h => by
    rw [List.flatMap_nil, List.append_nil]
    exact h
  | m :: ms, ps, result, h => by
    have hrest : Counted (ps ++ m.pages ++ ms.flatMap Mapping.pages)
        ((ms.map Mapping.line).foldl (fun result line => (words line).foldl numaWord result)
          ((words m.line).foldl numaWord result)) := counted_lines (h.line m)
    rwa [List.append_assoc] at hrest

/-- **The pages of a node are the sum over all mappings**, as 64 bits hold it; a node that no mapping has pages on is not in
the map.  Nothing else on a line is taken for pages. -/
theorem numaPages_sums (ms : List Mapping) (node : Int) :
    (numaPages (ended '\n' (ms.map Mapping.line))).find? node =
      if ∃ p ∈ ms.flatMap Mapping.pages, (p.1 : Int) = node then
        some (pagesOn node (ms.flatMap Mapping.pages) % 2 ^ 64)
      else none := by
  have hline : ∀ m : Mapping, '\n' ∉ m.line := by
    intro m
    refine notMem_intercalate (by decide) (fun w hw hin => ?_)
    have hword : IsWord w := by
      rw [List.mem_append, List.mem_append, List.mem_map] at hw
      rcases hw with hw | ⟨p, -, rfl⟩ | hw
      · exact (m.others w (List.mem_append_left _ hw)).1
      · exact word_pagesText p
      · exact (m.others w (List.mem_append_right _ hw)).1
    exact absurd (hword.2 '\n' hin) (by decide)
  have hlines : CppText.lines '\n' (ended '\n' (ms.map Mapping.line)) = ms.map Mapping.line :=
    CppText.lines_ended (by simpa only [List.forall_mem_map] using fun m _ => hline m)
  have hempty : Counted [] (∅ : OrdMap Int Nat) := by
    intro node
    simp
  unfold numaPages
  rw [hlines]
  exact counted_lines hempty node

end ProcCollector
end AffinityGraph
