import Lpc1788Libraries.DataManager.LogFsSearch
import Lpc1788Libraries.DataManager.LogFsReclaim
import Lpc1788Libraries.DataManager.LogFsFrame

namespace Lpc1788Libraries.DataManager

open Lpc1788Libraries.Support NorFlash BoundedProgram

variable {c : LogFsCfg} {s t u : Sys} {f : Pages} {m : UInt8} {start n oldest newest p k q a b l : ℕ} {nrs : ℕ → ℕ}

/-- Some of the `n` pages from `start` on have valid headers with the marker. From the page `oldest` places
behind `start`, and round to the page `newest` places behind that one, their numbers go up; `nrs` gives them
before they are taken modulo 65536. -/
structure Rolling (c : LogFsCfg) (f : Pages) (m : UInt8) (start n oldest newest : ℕ) (nrs : ℕ → ℕ) : Prop where
  le : n ≤ c.ring.size
  oldest_lt : oldest < n
  newest_lt : newest < n
  first : Found f m (c.ring.turn start n oldest 0)
  last : Found f m (c.ring.turn start n oldest newest)
  behind : ∀ i, newest < i → i < n → ¬Found f m (c.ring.turn start n oldest i)
  number : ∀ i < n, ∀ nr, HeaderAt f (c.ring.turn start n oldest i) m nr → nr = nrs i % 0x10000
  increases : ∀ i k, i < k → k ≤ newest → Found f m (c.ring.turn start n oldest i) →
    Found f m (c.ring.turn start n oldest k) → nrs i < nrs k
  span : nrs newest < nrs 0 + 0x8000

section numbers

theorem Rolling.round (h : Rolling c f m start n oldest newest nrs) :
    c.ring.turn start n oldest n = c.ring.turn start n oldest 0 :=
  (PageRing.turn_all h.oldest_lt).trans (PageRing.turn_zero h.oldest_lt).symm

theorem Rolling.range (h : Rolling c f m start n oldest newest nrs) (hk : k ≤ newest)
    (hfound : Found f m (c.ring.turn start n oldest k)) : nrs 0 ≤ nrs k ∧ nrs k ≤ nrs newest := by
  constructor
  · rcases Nat.eq_zero_or_pos k with rfl | hpos
    · exact le_rfl
    · exact (h.increases 0 k hpos hk h.first hfound).le
  · rcases hk.eq_or_lt with rfl | hlt
    · exact le_rfl
    · exact (h.increases k newest hlt le_rfl hfound h.last).le

theorem Rolling.le_newest (h : Rolling c f m start n oldest newest nrs) (hk : k < n)
    (hfound : Found f m (c.ring.turn start n oldest k)) : k ≤ newest :=
  not_lt.mp fun hlt => h.behind k hlt hk hfound

theorem Rolling.diff_small (h : Rolling c f m start n oldest newest nrs) (hpk : p < k) (hk : k ≤ newest)
    (ha : HeaderAt f (c.ring.turn start n oldest p) m a) (hb : HeaderAt f (c.ring.turn start n oldest k) m b)
    (hm : m = logFsMarkerFile ∨ m = logFsMarkerRecord) : nrDiff b a < 0x8000 := by
  have hlt := h.newest_lt
  have hspan := h.span
  have hstep := h.increases p k hpk hk ⟨hm, a, ha⟩ ⟨hm, b, hb⟩
  have hfirst := (h.range (hpk.le.trans hk) ⟨hm, a, ha⟩).1
  have hlast := (h.range hk ⟨hm, b, hb⟩).2
  have hnr := h.number p (by omega) a ha
  have hnr' := h.number k (by omega) b hb
  unfold nrDiff
  omega

theorem Rolling.diff_large (h : Rolling c f m start n oldest newest nrs) (hpos : 0 < newest)
    (ha : HeaderAt f (c.ring.turn start n oldest newest) m a) (hb : HeaderAt f (c.ring.turn start n oldest 0) m b) :
    0x8000 < nrDiff b a := by
  have hspan := h.span
  have hstep := h.increases 0 newest hpos le_rfl h.first h.last
  have hnr := h.number newest h.newest_lt a ha
  have hnr' := h.number 0 (Nat.zero_lt_of_lt h.newest_lt) b hb
  unfold nrDiff
  omega

theorem Rolling.not_apart (h : Rolling c f m start n oldest newest nrs) (hp : p ≤ newest)
    (hno : ∀ k, p < k → k < p + n → ¬Found f m (c.ring.turn start n oldest k)) : p = 0 ∧ newest = 0 := by
  have hlt := h.newest_lt
  have hzero : p = 0 := by
    by_contra hne
    apply hno n (by omega) (by omega)
    rw [h.round]
    exact h.first
  refine ⟨hzero, ?_⟩
  by_contra hne
  exact hno newest (by omega) (by omega) h.last

theorem Rolling.hop {p₀ : ℕ} (h : Rolling c f m start n oldest newest nrs) (hm : m = logFsMarkerFile ∨ m = logFsMarkerRecord)
    (hp₀ : p₀ ≤ newest) (hp : p₀ ≤ p) (hpk : p < k) (hk : k ≤ p₀ + n)
    (ha : HeaderAt f (c.ring.turn start n oldest p) m a) (hb : HeaderAt f (c.ring.turn start n oldest k) m b)
    (hno : ∀ l, p < l → l < k → ¬Found f m (c.ring.turn start n oldest l)) :
    p = newest ∧ k = n ∧ (0 < newest → 0x8000 < nrDiff b a) ∨
      (k ≤ newest ∨ newest < p) ∧ nrDiff b a < 0x8000 := by
  have hlt := h.newest_lt
  rcases Nat.lt_or_ge p n with hpn | hpn
  · have hle := h.le_newest hpn ⟨hm, a, ha⟩
    rcases hle.eq_or_lt with rfl | hbefore
    · left
      have hkn : k = n := by
        rcases Nat.lt_trichotomy k n with hkn | hkn | hkn
        · exact absurd ⟨hm, b, hb⟩ (h.behind k hpk hkn)
        · exact hkn
        · refine absurd ?_ (hno n hlt hkn)
          rw [h.round]
          exact h.first
      rw [hkn, h.round] at hb
      exact ⟨rfl, hkn, fun hpos => h.diff_large hpos ha hb⟩
    · have hkle : k ≤ newest := not_lt.mp fun hgt => hno newest hbefore hgt h.last
      exact Or.inr ⟨Or.inl hkle, h.diff_small hpk hkle ha hb hm⟩
  · obtain ⟨p, rfl⟩ := Nat.exists_eq_add_of_le' hpn
    obtain ⟨k, rfl⟩ := Nat.exists_eq_add_of_le' (hpn.trans hpk.le)
    rw [PageRing.turn_add] at ha hb
    exact Or.inr ⟨Or.inr (by omega), h.diff_small (Nat.lt_of_add_lt_add_right hpk) (by omega) ha hb hm⟩

end numbers

section search

/-- The pages for which the search is made. -/
inductive PageKind
  | file
  | record

namespace PageKind

def marker : PageKind → UInt8
  | .file => logFsMarkerFile
  | .record => logFsMarkerRecord

def save : PageKind → ℕ → ℕ → ℕ → LogFs → LogFs
  | .file => saveFilePages
  | .record => saveRecPages

/-- The first page, the last page and the next number that `log_fs` holds. -/
def kept (l : LogFs) : PageKind → ℕ × ℕ × ℕ
  | .file => (l.filePageFirst, l.filePageLast, l.filePageNrNext)
  | .record => (l.recPageFirst, l.recPageLast, l.recPageNrNext)

variable {kind : PageKind}

theorem marker_cases (kind : PageKind) : kind.marker = logFsMarkerFile ∨ kind.marker = logFsMarkerRecord := by
  cases kind with
  | file => exact Or.inl rfl
  | record => exact Or.inr rfl

@[simp] theorem kept_save (first last nr : ℕ) (l : LogFs) : kind.kept (kind.save first last nr l) = (first, last, nr) := by
  cases kind <;> rfl

@[simp] theorem kept_header (l : LogFs) (x : LogFsPageHeader) : kind.kept { l with pageHeader := x } = kind.kept l := by
  cases kind <;> rfl

@[simp] theorem save_header (first last nr : ℕ) (l : LogFs) : (kind.save first last nr l).pageHeader = l.pageHeader := by
  cases kind <;> rfl

end PageKind

variable {kind : PageKind} {P : ℕ → Bool}

theorem filter_range'_next (ha : P a = true) (hab : a < k) (hk : k ≤ b) (hno : ∀ l, a < l → l < k → ¬P l = true) :
    (List.range' a (b - a)).filter P = a :: (List.range' k (b - k)).filter P := by
  have hsplit : List.range' a (b - a) = a :: (List.range' (a + 1) (k - (a + 1)) ++ List.range' k (b - k)) := by
    have happend := @List.range'_append (a + 1) (k - (a + 1)) (b - k) 1
    rw [Nat.one_mul, Nat.add_sub_cancel' hab] at happend
    rw [happend, ← List.range'_succ]
    congr 1
    omega
  have hnone : (List.range' (a + 1) (k - (a + 1))).filter P = [] := by
    rw [List.filter_eq_nil_iff]
    intro l hl
    obtain ⟨h1, h2⟩ := List.mem_range'_1.mp hl
    exact hno l h1 (by omega)
  rw [hsplit, List.filter_cons_of_pos ha, List.filter_append, hnone, List.nil_append]

open Classical in
/-- The pages that are met from the place `i` on, going round the `n` pages from the page `p`. -/
noncomputable def met (c : LogFsCfg) (f : Pages) (m : UInt8) (start n p i : ℕ) : List ℕ :=
  ((List.range' i (n - i)).filter fun l => Found f m (c.ring.turn start n p l)).map (c.ring.turn start n p)

open Classical in
theorem met_next {i : ℕ} (hi : Found f m (c.ring.turn start n p i)) (hik : i < k) (hk : k ≤ n)
    (hno : ∀ l, i < l → l < k → ¬Found f m (c.ring.turn start n p l)) :
    met c f m start n p i = c.ring.turn start n p i :: met c f m start n p k := by
  unfold met
  rw [filter_range'_next (decide_eq_true hi) hik hk fun l h1 h2 => by simpa using hno l h1 h2, List.map_cons]

theorem met_all : met c f m start n p n = [] := by
  rw [met, Nat.sub_self]
  rfl

/-- What the search has kept when it has come to the page at `p`. -/
def Progress (kind : PageKind) (c : LogFsCfg) (start n oldest newest : ℕ) (nrs : ℕ → ℕ) (p diffLargest : ℕ) (l : LogFs) :
    Prop :=
  p ≤ newest ∧ diffLargest < 0x8000 ∨
    newest < p ∧ 0x8000 < diffLargest ∧ kind.kept l =
      (c.ring.turn start n oldest 0, c.ring.turn start n oldest newest, (nrs newest + 1) % 0x10000)

theorem compared_kept {save : ℕ → ℕ → ℕ → LogFs → LogFs} {d nr nr' : ℕ} :
    (compared save d p q nr nr' s).logFs = if d < nrDiff nr' nr then save q p ((nr + 1) % 0x10000) s.logFs else s.logFs := by
  unfold compared
  split_ifs
  · rfl
  · rfl

theorem Progress.compared {d p₀ : ℕ} (h : Rolling c f kind.marker start n oldest newest nrs) (hpos : 0 < newest)
    (hp₀ : p₀ ≤ newest) (hp : p₀ ≤ p) (hpk : p < k) (hk : k ≤ p₀ + n)
    (ha : HeaderAt f (c.ring.turn start n oldest p) kind.marker a)
    (hb : HeaderAt f (c.ring.turn start n oldest k) kind.marker b)
    (hno : ∀ l, p < l → l < k → ¬Found f kind.marker (c.ring.turn start n oldest l))
    (hprogress : Progress kind c start n oldest newest nrs p d t.logFs) :
    Progress kind c start n oldest newest nrs k (max d (nrDiff b a))
      (DataManager.compared kind.save d (c.ring.turn start n oldest p) (c.ring.turn start n oldest k) a b t).logFs := by
  rw [compared_kept]
  rcases h.hop kind.marker_cases hp₀ hp hpk hk ha hb hno with ⟨rfl, rfl, hlarge⟩ | ⟨hside, hsmall⟩
  · have hlarge := hlarge hpos
    rcases hprogress with ⟨-, hd⟩ | ⟨hlt, -⟩
    · right
      rw [if_pos (hd.trans hlarge), PageKind.kept_save, Nat.max_eq_right (hd.trans hlarge).le, h.round]
      refine ⟨h.newest_lt, hlarge, ?_⟩
      rw [h.number p h.newest_lt a ha, Nat.mod_add_mod]
    · exact absurd hlt (lt_irrefl p)
  · rcases hprogress with ⟨hle, hd⟩ | ⟨hlt, hd, hkept⟩
    · left
      exact ⟨hside.resolve_right (not_lt.mpr hle), max_lt hd hsmall⟩
    · right
      rw [if_neg (by omega), Nat.max_eq_left (by omega)]
      exact ⟨hlt.trans hpk, hd, hkept⟩

theorem place_eq (p₀ i : ℕ) : c.ring.turn start n ((oldest + p₀) % n) i = c.ring.turn start n oldest (p₀ + i) :=
  PageRing.turn_turn

theorem met_place {p₀ : ℕ} (hp : p₀ ≤ p) (hpk : p < k) (hk : k ≤ p₀ + n)
    (hfound : Found f m (c.ring.turn start n oldest p))
    (hno : ∀ l, p < l → l < k → ¬Found f m (c.ring.turn start n oldest l)) :
    met c f m start n ((oldest + p₀) % n) (p - p₀) =
      c.ring.turn start n oldest p :: met c f m start n ((oldest + p₀) % n) (k - p₀) := by
  have hplace : c.ring.turn start n ((oldest + p₀) % n) (p - p₀) = c.ring.turn start n oldest p := by
    rw [place_eq, Nat.add_sub_cancel' hp]
  rw [← hplace]
  apply met_next
  · rw [hplace]
    exact hfound
  · omega
  · omega
  · intro l h1 h2
    rw [place_eq]
    exact hno _ (by omega) (by omega)

theorem findNext_place (hm : m = logFsMarkerFile ∨ m = logFsMarkerRecord) (hstart : c.ring.Mem start) (hn : n ≤ c.ring.size)
    (h0 : 0 < n) (oldest p : ℕ) (t : Sys) :
    ∃ q u, (logFsPageHeaderFindNext c m start (c.ring.step start (n - 1)) (c.ring.turn start n oldest p)).Returns t q u ∧
      SameHeaders t u ∧ HeaderOnly t u ∧
      (q = logFsPageInvalid ∧ (∀ k, p < k → k < p + n → ¬Found t.flash m (c.ring.turn start n oldest k)) ∨
        ∃ k b, p < k ∧ k < p + n ∧ q = c.ring.turn start n oldest k ∧
          (∀ l, p < l → l < k → ¬Found t.flash m (c.ring.turn start n oldest l)) ∧
          HeaderAt t.flash (c.ring.turn start n oldest k) m b ∧ u.logFs.pageHeader.nr = b) := by
  obtain ⟨q, u, hr, hu, hsearch⟩ := findNext_spec hm hstart hn (Nat.mod_lt (oldest + p) h0) t
  simp only [PageRing.turn_turn] at hsearch
  refine ⟨q, u, hr, hu, findNext_headerOnly hr, ?_⟩
  rcases hsearch with ⟨rfl, hno⟩ | ⟨i, hi, rfl, hno, b, hb, hheader⟩
  · left
    refine ⟨rfl, fun k hpk hk => ?_⟩
    obtain ⟨i, rfl⟩ := Nat.exists_eq_add_of_lt hpk
    exact hno i (by omega)
  · right
    refine ⟨p + (i + 1), b, by omega, by omega, rfl, fun l hpl hl => ?_, hb, by rw [hheader, sealedHeader]⟩
    obtain ⟨j, rfl⟩ := Nat.exists_eq_add_of_lt hpl
    exact hno j (by omega)

theorem rolling_visits {p₀ : ℕ} (h : Rolling c s.flash kind.marker start n oldest newest nrs) (hstart : c.ring.Mem start)
    (hp₀ : p₀ ≤ newest) (hfound : Found s.flash kind.marker (c.ring.turn start n oldest p₀)) (d : ℕ) :
    ∀ p a largest t, p + d = p₀ + n → p₀ ≤ p → 0 < d →
      HeaderAt s.flash (c.ring.turn start n oldest p) kind.marker a → t.logFs.pageHeader.nr = a → SameHeaders s t →
      Progress kind c start n oldest newest nrs p largest t.logFs →
      ∃ pages u, Prog.Visits (largestDiffRound c kind.marker start (c.ring.step start (n - 1)) kind.save
          (c.ring.turn start n oldest p₀)) (c.ring.turn start n oldest p, largest) pages t () u ∧
        pages.map Prod.fst = met c s.flash kind.marker start n ((oldest + p₀) % n) (p - p₀) ∧
        kind.kept u.logFs =
          (c.ring.turn start n oldest 0, c.ring.turn start n oldest newest, (nrs newest + 1) % 0x10000) := by
  have hm := kind.marker_cases
  have h0 : 0 < n := Nat.zero_lt_of_lt h.newest_lt
  have hlt := h.newest_lt
  -- the page from which the search has started comes again
  have hagain : c.ring.turn start n oldest (p₀ + n) = c.ring.turn start n oldest p₀ := PageRing.turn_add
  induction d using Nat.strongRecOn with
  | ind d ih =>
    intro p a largest t hpd hp hd ha hnr hsame hprogress
    have hfoundp : Found s.flash kind.marker (c.ring.turn start n oldest p) := ⟨hm, a, ha⟩
    obtain ⟨q, u, hr, hu, ⟨x, hul⟩, hsearch⟩ := findNext_place hm hstart h.le h0 oldest p t
    simp only [← hsame.found] at hsearch
    rcases hsearch with ⟨rfl, hnone⟩ | ⟨k, b, hpk, hk, rfl, hno, hb, hnr'⟩
    · -- there is no other page
      have hpp : p = p₀ := by
        by_contra hne
        apply hnone (p₀ + n) (by omega) (by omega)
        rw [hagain]
        exact hfound
      subst hpp
      obtain ⟨rfl, hnewest⟩ := h.not_apart hp₀ hnone
      refine ⟨_, _, Prog.Visits.last (largestDiffRound_last hnr hr), ?_, ?_⟩
      · rw [met_place le_rfl (by omega) le_rfl hfound fun l h1 h2 => hnone l h1 (by omega), Nat.zero_add, Nat.sub_zero,
          met_all]
        rfl
      · rw [PageKind.kept_save, h.number 0 h0 a ha, Nat.mod_add_mod, hnewest]
    · have hb := (hsame kind.marker _ b hm).mpr hb
      have hkn : k ≤ p₀ + n := by
        by_contra hgt
        apply hno (p₀ + n) (by omega) (by omega)
        rw [hagain]
        exact hfound
      have hpos : 0 < newest := by
        by_contra hzero
        have hle := h.le_newest (by omega) hfoundp
        have hle' := h.le_newest (by omega) ⟨hm, b, hb⟩
        omega
      have hprogress' : Progress kind c start n oldest newest nrs p largest u.logFs := by
        rw [Progress, hul, PageKind.kept_header]
        exact hprogress
      have hnext := hprogress'.compared h hpos hp₀ hp hpk hkn ha hb hno
      have hround : (largestDiffRound c kind.marker start (c.ring.step start (n - 1)) kind.save (c.ring.turn start n oldest p₀)
          (c.ring.turn start n oldest p, largest)).Returns t _ _ :=
        largestDiffRound_next hnr (mem_ne_invalid PageRing.turn_mem) hr hnr'
      have hmet := met_place hp hpk hkn hfoundp hno
      rcases hkn.eq_or_lt with rfl | hlast
      · -- the turn is complete
        rw [hagain, if_neg (not_not_intro rfl)] at hround
        rw [hagain] at hnext
        refine ⟨_, _, Prog.Visits.last hround, ?_, ?_⟩
        · rw [hmet, Nat.add_sub_cancel_left, met_all]
          rfl
        · rcases hnext with ⟨hle, -⟩ | ⟨-, -, hkept⟩
          · omega
          · exact hkept
      · have hne : c.ring.turn start n oldest k ≠ c.ring.turn start n oldest p₀ := by
          rw [← Nat.add_sub_cancel' (hp.trans hpk.le), ← place_eq, ← Nat.add_zero p₀, ← place_eq, Nat.add_zero, Ne,
            PageRing.turn_inj h.le (by omega) h0]
          omega
        have hheader : (DataManager.compared kind.save largest (c.ring.turn start n oldest p)
            (c.ring.turn start n oldest k) a b u).logFs.pageHeader.nr = b := by
          rw [compared_kept]
          split_ifs
          · rw [PageKind.save_header, hnr']
          · exact hnr'
        have hsame' : SameHeaders s (DataManager.compared kind.save largest (c.ring.turn start n oldest p)
            (c.ring.turn start n oldest k) a b u) := IsTrans.trans _ _ _ hsame (IsTrans.trans _ _ _ hu compared_sameHeaders)
        obtain ⟨pages, v, hvisits, hpages, hkept⟩ :=
          ih (p₀ + n - k) (by omega) k b _ _ (by omega) (hp.trans hpk.le) (by omega) hb hheader hsame' hnext
        rw [if_pos hne] at hround
        refine ⟨_, v, Prog.Visits.next hround hvisits, ?_, hkept⟩
        rw [List.map_cons, hpages, hmet]

end search

section search

variable {kind : PageKind}

/-- The search that starts at `page` ends after one turn, in which it has met every page with the marker once,
and keeps the oldest page, the newest one and the number behind its number. -/
def Finds (kind : PageKind) (c : LogFsCfg) (start n oldest newest : ℕ) (nrs : ℕ → ℕ) (j : ℕ) (s : Sys) : Prop :=
  ∃ pages t, Prog.Visits (largestDiffRound c kind.marker start (c.ring.step start (n - 1)) kind.save (c.ring.step start j))
      (c.ring.step start j, 0) pages s () t ∧
    pages.map Prod.fst = met c s.flash kind.marker start n j 0 ∧
    kind.kept t.logFs = (c.ring.turn start n oldest 0, c.ring.turn start n oldest newest, (nrs newest + 1) % 0x10000)

theorem Rolling.congr (h : Rolling c s.flash kind.marker start n oldest newest nrs) (hst : SameHeaders s t) :
    Rolling c t.flash kind.marker start n oldest newest nrs where
  le := h.le
  oldest_lt := h.oldest_lt
  newest_lt := h.newest_lt
  first := hst.found.mp h.first
  last := hst.found.mp h.last
  behind i hi hin hfound := h.behind i hi hin (hst.found.mpr hfound)
  number i hi nr hnr := h.number i hi nr ((hst _ _ nr kind.marker_cases).mpr hnr)
  increases i k hik hk hi hk' := h.increases i k hik hk (hst.found.mpr hi) (hst.found.mpr hk')
  span := h.span

theorem Rolling.finds {j nr : ℕ} (h : Rolling c s.flash kind.marker start n oldest newest nrs) (hstart : c.ring.Mem start)
    (hj : j < n) (hheader : HeaderAt s.flash (c.ring.step start j) kind.marker nr)
    (hram : s.logFs.pageHeader = sealedHeader kind.marker nr) : Finds kind c start n oldest newest nrs j s := by
  have hlt := h.oldest_lt
  obtain ⟨p₀, hp₀, hplace⟩ : ∃ p₀ < n, (oldest + p₀) % n = j := by
    by_cases hle : oldest ≤ j
    · exact ⟨j - oldest, by omega, by rw [Nat.add_sub_cancel' hle, Nat.mod_eq_of_lt hj]⟩
    · refine ⟨j + n - oldest, by omega, ?_⟩
      rw [show oldest + (j + n - oldest) = j + n by omega, Nat.add_mod_right, Nat.mod_eq_of_lt hj]
  have hpage : c.ring.turn start n oldest p₀ = c.ring.step start j := by rw [PageRing.turn, hplace]
  rw [← hpage] at hheader
  have hfound : Found s.flash kind.marker (c.ring.turn start n oldest p₀) := ⟨kind.marker_cases, nr, hheader⟩
  have hnr : s.logFs.pageHeader.nr = nr := by rw [hram, sealedHeader]
  have hle := h.le_newest hp₀ hfound
  have hvisits := rolling_visits h hstart hle hfound n p₀ nr 0 s rfl le_rfl (Nat.zero_lt_of_lt hj) hheader hnr
    (Std.Refl.refl s) (Or.inl ⟨hle, by decide⟩)
  rw [hplace, hpage, Nat.sub_self] at hvisits
  exact hvisits

theorem Rolling.findFirst (h : Rolling c s.flash kind.marker start n oldest newest nrs) (hstart : c.ring.Mem start) :
    ∃ j t, j < n ∧
      (logFsPageHeaderFindFirst c kind.marker start (c.ring.step start (n - 1))).Returns s (c.ring.step start j) t ∧
      Rolling c t.flash kind.marker start n oldest newest nrs ∧ Finds kind c start n oldest newest nrs j t := by
  have hle := h.le
  have hlt := h.oldest_lt
  have hbefore : ∀ i < n - 1, c.ring.step start i ≠ c.ring.step start (n - 1) := by
    intro i hi
    rw [Ne, PageRing.step_inj (by omega) (by omega)]
    omega
  obtain ⟨r, t, hr, hsame, hsearch⟩ := findFirst_spec kind.marker_cases hstart rfl hbefore s
  have hrolling := h.congr hsame
  rw [Nat.sub_add_cancel (Nat.zero_lt_of_lt hlt)] at hsearch
  rcases hsearch with ⟨-, hno⟩ | ⟨j, hj, rfl, -, nr, hheader, hram⟩
  · refine absurd ?_ (hno oldest hlt)
    rw [← PageRing.turn_zero hlt]
    exact h.first
  · have hheader := (hsame _ _ nr kind.marker_cases).mp hheader
    exact ⟨j, t, hj, hr, hrolling, hrolling.finds hstart hj hheader hram⟩

theorem init_finds (h : Rolling c s.flash logFsMarkerFile c.pageStart c.ring.size oldest newest nrs) :
    ∃ t, (logFsInit c).Returns s .none t ∧ PageKind.file.kept t.logFs =
      (c.ring.turn c.pageStart c.ring.size oldest 0, c.ring.turn c.pageStart c.ring.size oldest newest,
        (nrs newest + 1) % 0x10000) := by
  have hstart : c.ring.Mem c.pageStart := PageRing.lo_mem
  have hstop : c.ring.step c.pageStart (c.ring.size - 1) = c.pageEnd := by
    rw [PageRing.step_size_pred hstart]
    exact if_pos rfl
  have hzero : SameHeaders s { s with logFs := LogFs.zero c } := SameHeaders.of_flash rfl
  have hrolling : Rolling c s.flash PageKind.file.marker c.pageStart c.ring.size oldest newest nrs := h
  obtain ⟨j, t, hj, hfirst, -, pages, u, hvisits, -, hkept⟩ := (hrolling.congr hzero).findFirst hstart
  rw [hstop] at hfirst hvisits
  refine ⟨u, ?_, hkept⟩
  unfold logFsInit
  rw [setLogFs_bind]
  apply hfirst.bind
  rw [if_neg (mem_ne_invalid PageRing.step_mem)]
  apply hvisits.returns.bind
  exact Prog.returns_pure.mpr ⟨rfl, rfl⟩

/-- FILE pages with the numbers 65534, 0 and 2 at the pages 3, 0 and 2, a bad page and a RECORD page. -/
def wrappedFlash : Pages := fun page i =>
  if page = 4 then logFsMarkerBad
  else if page = 1 then (sealedHeader logFsMarkerRecord 7).toBytes.getD i 0xff
  else (sealedHeader logFsMarkerFile (if page = 3 then 65534 else page)).toBytes.getD i 0xff

theorem wrappedFlash_file {page : ℕ} (h4 : page ≠ 4) (h1 : page ≠ 1) (hpage : page < 0x10000) :
    HeaderAt wrappedFlash page logFsMarkerFile (if page = 3 then 65534 else page) := by
  have hbytes : wrappedFlash page =
      fun i => (sealedHeader logFsMarkerFile (if page = 3 then 65534 else page)).toBytes.getD i 0xff := by
    funext i
    rw [wrappedFlash, if_neg h4, if_neg h1]
  constructor
  · split_ifs
    · decide
    · exact hpage
  · rw [Pages.read, hbytes]
    rfl

theorem wrappedFlash_other {page nr : ℕ} (h : page = 4 ∨ page = 1) : ¬HeaderAt wrappedFlash page logFsMarkerFile nr := by
  intro hheader
  have hmarker := hheader.marker_eq
  rcases h with rfl | rfl
  · have hbad : logFsMarkerBad = logFsMarkerFile := hmarker
    exact absurd hbad (by decide)
  · have hrecord : logFsMarkerRecord = logFsMarkerFile := hmarker
    exact absurd hrecord (by decide)

theorem wrappedFlash_turn (i : ℕ) : reclaimCfg.ring.turn 0 5 3 i = (3 + i) % 5 := by
  have hturn : reclaimCfg.ring.turn 0 5 3 i = 0 + (0 - 0 + (3 + i) % 5) % 5 := rfl
  omega

theorem wrappedFlash_rolling : Rolling reclaimCfg wrappedFlash logFsMarkerFile 0 5 3 4 fun i => 65534 + i where
  le := le_rfl
  oldest_lt := by decide
  newest_lt := by decide
  first := ⟨Or.inl rfl, _, @wrappedFlash_file 3 (by decide) (by decide) (by decide)⟩
  last := ⟨Or.inl rfl, _, @wrappedFlash_file 2 (by decide) (by decide) (by decide)⟩
  behind i h1 h2 := absurd h2 (by omega)
  number i hi nr hheader := by
    rw [wrappedFlash_turn] at hheader
    by_cases hother : (3 + i) % 5 = 4 ∨ (3 + i) % 5 = 1
    · exact absurd hheader (wrappedFlash_other hother)
    · have hfile := @wrappedFlash_file ((3 + i) % 5) (by omega) (by omega) (by omega)
      rw [(hheader.unique hfile).2]
      split_ifs <;> omega
  increases i k hik _ _ _ := Nat.add_lt_add_left hik 65534
  span := by decide

end search

end Lpc1788Libraries.DataManager
