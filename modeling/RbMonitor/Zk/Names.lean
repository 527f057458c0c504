import RbMonitor.Lib.Strcmp
import RbMonitor.Zk.Queue.Order

/-!
This module contains the names of the nodes: what is compared and composed as strings follows the
sequence numbers at their ends.
-/

namespace RbMonitor

namespace Zk

open CString

def BUFSIZ : Nat := 8192

namespace Path

/-- `parent_node`: the path up to its last separator. -/
def parentNode (path : CStr) : CStr :=
  match strrchr path '/' with
  | none => path
  | some lastSeparator => path.take (path.length - lastSeparator.length)

/-- The directory that is asked for its children. -/
def directory (path : CStr) : CStr :=
  parentNode (snprintfStr BUFSIZ path)

/-- `leader_previous_string`, with `bef_str` as it is before. -/
def leaderPreviousString (strings : List (Option CStr)) (myStr : CStr) (befStr : Option CStr)
    : Option CStr :=
  match (strrchr myStr '/').map List.tail with
  | none => befStr
  | some myStr =>
    bestOf
      (fun string befStr =>
        strcmp string myStr = .lt ∧ befStr.all fun bef => strcmp string bef = .gt)
      strings befStr

/-- The node that `leader_get_children_complete` watches, if the mutex is not obtained. -/
def prevNodePath (strings : List (Option CStr)) (path : CStr) : Option CStr :=
  (leaderPreviousString strings path none).map fun befStr =>
    snprintfStr BUFSIZ (directory path ++ '/' :: befStr)

/-- `min_str`. -/
def minStr (strings : List (Option CStr)) : Option CStr :=
  bestOf (fun string minStr => minStr.all fun min => strcmp string min = .lt) strings none

/-- The node that `rb_zk_queue_pop_minimum0` gets. -/
def queueElementPath (strings : List (Option CStr)) (path : CStr) : Option CStr :=
  (minStr strings).map fun minStr => directory path ++ '/' :: minStr

end Path

/-- The path that nodes are created with: the server appends their numbers to the last name in it. -/
structure NodePath where
  dir : CStr
  leaf : CStr
  noSeparator : '/' ∉ leaf
  fits : dir.length + leaf.length + 12 ≤ BUFSIZ

namespace NodePath

def zookeeperLeaderLeafName : NodePath where
  dir := "/rb_monitor/leader".toList
  leaf := "leader_prop_".toList
  noSeparator := by decide
  fits := by decide

variable (p : NodePath)

/-- The path that is asked for. -/
def path : CStr :=
  p.dir ++ '/' :: p.leaf

/-- The name of the node with a number: a sequential node has ten digits. -/
def name (seq : Nat) : CStr :=
  p.leaf ++ zeroPadded 10 seq

def nodePath (seq : Nat) : CStr :=
  p.dir ++ '/' :: p.name seq

/-- The children that the server reports, among them maybe `NULL`. -/
def names (children : List (Option Nat)) : List (Option CStr) :=
  children.map (Option.map p.name)

theorem noSeparator_name (seq : Nat) : '/' ∉ p.name seq := by
  rw [name, List.mem_append, not_or]
  refine ⟨p.noSeparator, ?_⟩
  intro hmem
  have hdigit := isDigit_of_mem_zeroPadded hmem
  cases hdigit

theorem parentNode_append {leaf : CStr} (h : '/' ∉ leaf) (dir : CStr)
    : Path.parentNode (dir ++ '/' :: leaf) = dir := by
  rw [Path.parentNode, strrchr_append h]
  simp

theorem directory_append {leaf : CStr} (h : '/' ∉ leaf) {dir : CStr}
    (hfits : dir.length + leaf.length + 2 ≤ BUFSIZ)
    : Path.directory (dir ++ '/' :: leaf) = dir := by
  rw [Path.directory, snprintfStr_of_lt, parentNode_append h]
  rw [List.length_append, List.length_cons]
  omega

theorem directory_path : Path.directory p.path = p.dir := by
  apply directory_append p.noSeparator
  have := p.fits
  omega

variable {p} {seq : Nat}

theorem length_name (h : seq < 10 ^ 10) : (p.name seq).length = p.leaf.length + 10 := by
  rw [name, List.length_append, length_zeroPadded (by omega) h]

theorem directory_nodePath (h : seq < 10 ^ 10) : Path.directory (p.nodePath seq) = p.dir := by
  apply directory_append (p.noSeparator_name seq)
  rw [length_name h]
  have := p.fits
  omega

theorem strcmp_name {m n : Nat} (hm : m < 10 ^ 10) (hn : n < 10 ^ 10)
    : strcmp (p.name m) (p.name n) = compare m n := by
  rw [name, name, strcmp_append_left, strcmp_zeroPadded (by omega) hm hn]

theorem leaderPreviousString_names {children : List (Option Nat)} {me : Nat}
    (hchildren : ∀ n, some n ∈ children → n < 10 ^ 10) (hme : me < 10 ^ 10)
    : Path.leaderPreviousString (p.names children) (p.nodePath me) none
      = (leaderPreviousString children.reduceOption me).map p.name := by
  unfold Path.leaderPreviousString nodePath names
  rw [strrchr_append (p.noSeparator_name me)]
  simp only [Option.map_some, List.tail_cons]
  refine bestOf_map p.name (fun n bef => n < me ∧ bef.all fun bef => bef < n)
    (fun string bef => strcmp string (p.name me) = .lt
      ∧ bef.all fun bef => strcmp string bef = .gt)
    (fun n => n < 10 ^ 10) ?_ hchildren none nofun
  intro n best hn hbest
  rw [strcmp_name hn hme, compare_lt_iff_lt]
  cases best with
  | none => simp
  | some b => simp [strcmp_name hn (hbest b rfl), compare_gt_iff_gt]

theorem minStr_names {children : List (Option Nat)}
    (hchildren : ∀ n, some n ∈ children → n < 10 ^ 10)
    : Path.minStr (p.names children) = (minStr children.reduceOption).map p.name := by
  unfold Path.minStr names
  refine bestOf_map p.name (fun n min => min.all fun min => n < min)
    (fun string min => min.all fun min => strcmp string min = .lt)
    (fun n => n < 10 ^ 10) ?_ hchildren none nofun
  intro n best hn hbest
  cases best with
  | none => simp
  | some b => simp [strcmp_name hn (hbest b rfl), compare_lt_iff_lt]

theorem mem_of_leaderPreviousString {children : List (Option Nat)} {me bef : Nat}
    (h : leaderPreviousString children.reduceOption me = some bef)
    : some bef ∈ children :=
  List.reduceOption_mem_iff.mp (Client.leaderPreviousString_eq_some_iff.mp h).1.1

theorem prevNodePath_names {children : List (Option Nat)} {me : Nat}
    (hchildren : ∀ n, some n ∈ children → n < 10 ^ 10) (hme : me < 10 ^ 10)
    : Path.prevNodePath (p.names children) (p.nodePath me)
      = (leaderPreviousString children.reduceOption me).map p.nodePath := by
  rw [Path.prevNodePath, leaderPreviousString_names hchildren hme, directory_nodePath hme]
  cases hbef : leaderPreviousString children.reduceOption me with
  | none => rfl
  | some bef =>
    have hlt := hchildren bef (mem_of_leaderPreviousString hbef)
    have hfits := p.fits
    simp only [Option.map_some]
    rw [snprintfStr_of_lt]
    . rfl
    . rw [List.length_append, List.length_cons, length_name hlt]
      omega

theorem queueElementPath_names {children : List (Option Nat)}
    (hchildren : ∀ n, some n ∈ children → n < 10 ^ 10)
    : Path.queueElementPath (p.names children) p.path
      = (minStr children.reduceOption).map p.nodePath := by
  rw [Path.queueElementPath, minStr_names hchildren, directory_path, Option.map_map]
  rfl

/-- What is composed from names is what the numbers say, and its directory is the one of the node:
the greatest number below one's own, and the least number. -/
theorem names_refine (p : NodePath) {children : List (Option Nat)} {me : Nat}
    (hchildren : ∀ n, some n ∈ children → n < 10 ^ 10) (hme : me < 10 ^ 10)
    : Path.directory p.path = p.dir
      ∧ Path.directory (p.nodePath me) = p.dir
      ∧ Path.prevNodePath (p.names children) (p.nodePath me)
        = (leaderPreviousString children.reduceOption me).map p.nodePath
      ∧ (∀ prevNodePath ∈ Path.prevNodePath (p.names children) (p.nodePath me),
        Path.directory prevNodePath = p.dir)
      ∧ Path.queueElementPath (p.names children) p.path
        = (minStr children.reduceOption).map p.nodePath
      ∧ (∀ bef, leaderPreviousString children.reduceOption me = some bef
        ↔ IsGreatest {n | some n ∈ children ∧ n < me} bef)
      ∧ ∀ min, minStr children.reduceOption = some min ↔ IsLeast {n | some n ∈ children} min := by
  have hprev := @prevNodePath_names p children me hchildren hme
  refine ⟨p.directory_path, directory_nodePath hme, hprev, ?_, queueElementPath_names hchildren, ?_,
    ?_⟩
  . intro prevNodePath hmem
    rw [hprev, Option.mem_def, Option.map_eq_some_iff] at hmem
    rcases hmem with ⟨bef, hbef, rfl⟩
    exact directory_nodePath (hchildren bef (mem_of_leaderPreviousString hbef))
  . intro bef
    simp only [Client.leaderPreviousString_eq_some_iff, List.reduceOption_mem_iff]
  . intro min
    simp only [Consumer.minStr_eq_some_iff, List.reduceOption_mem_iff]

theorem names_refine_leader
    : Path.prevNodePath (zookeeperLeaderLeafName.names [some 12, none, some 9, some 3])
        (zookeeperLeaderLeafName.nodePath 10)
      = some "/rb_monitor/leader/leader_prop_0000000009".toList := by
  have hchildren : ∀ n, some n ∈ [some 12, none, some 9, some 3] → n < 10 ^ 10 := by
    intro n hn
    simp at hn
    omega
  have hme : 10 < 10 ^ 10 := by omega
  rcases names_refine zookeeperLeaderLeafName hchildren hme with ⟨_, _, hprev, _, _, _, _⟩
  rw [hprev]
  decide

end NodePath

end Zk

end RbMonitor
