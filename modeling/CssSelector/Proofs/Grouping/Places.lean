import CssSelector.Proofs.Grouping.Flatten

/-!
Values without their places. Grouping does not look at places, so tokens of the same kinds make the same values up to
these, and the tokens of values that stand inside others make the same values on their own. Main statement:
`map_atOrigin_group_eq_iff`.
-/

namespace CssSelector

/-! ### Forgetting places -/

/-- The token moved to the beginning of a text. -/
def Token.atOrigin (t : Token) : Token := ⟨t.kind, .origin⟩

@[simp] theorem Token.kind_atOrigin (t : Token) : t.atOrigin.kind = t.kind := rfl

mutual

/-- The value with every place in it set to the beginning of a text. -/
def ComponentValue.atOrigin : ComponentValue → ComponentValue
  | .token t => .token t.atOrigin
  | .function name arguments _ => .function name (ComponentValue.allAtOrigin arguments) .origin
  | .block bracket content _ => .block bracket (ComponentValue.allAtOrigin content) .origin

def ComponentValue.allAtOrigin : List ComponentValue → List ComponentValue
  | [] => []
  | v :: vs => v.atOrigin :: ComponentValue.allAtOrigin vs

end

def Written.atOrigin (w : Written) : Written := ⟨w.kind, w.location?.map fun _ => .origin⟩

theorem Token.writtenAs_atOrigin {t : Token} {w : Written} (h : t.kind = w.kind) :
    t.atOrigin.WrittenAs w.atOrigin := by
  refine ⟨h, fun l hl => ?_⟩
  obtain ⟨-, -, rfl⟩ := Option.map_eq_some_iff.mp hl
  rfl

namespace ComponentValue

theorem allAtOrigin_eq (vs : List ComponentValue) : allAtOrigin vs = vs.map atOrigin := by
  induction vs with
  | nil => rfl
  | cons v vs ih => rw [allAtOrigin, ih, List.map_cons]

mutual

theorem flatten_atOrigin : ∀ v : ComponentValue, v.atOrigin.flatten = v.flatten.map Written.atOrigin
  | .token _ => rfl
  | .function name arguments _ => by
    rw [atOrigin, flatten, flattenAll_allAtOrigin arguments, flatten, List.map_cons, List.map_append]
    rfl
  | .block bracket content _ => by
    rw [atOrigin, flatten, flattenAll_allAtOrigin content, flatten, List.map_cons, List.map_append]
    rfl

theorem flattenAll_allAtOrigin : ∀ vs : List ComponentValue,
    flattenAll (allAtOrigin vs) = (flattenAll vs).map Written.atOrigin
  | [] => rfl
  | v :: vs => by
    rw [allAtOrigin, flattenAll, flatten_atOrigin v, flattenAll_allAtOrigin vs, flattenAll, List.map_append]

end

theorem content_atOrigin (v : ComponentValue) : v.atOrigin.content = v.content.map atOrigin := by
  cases v with
  | token => rfl
  | function name arguments => exact allAtOrigin_eq arguments
  | block bracket content => exact allAtOrigin_eq content

@[simp] theorem isStrayOpener_atOrigin (v : ComponentValue) : v.atOrigin.isStrayOpener = v.isStrayOpener := by
  cases v with
  | token t => exact isStrayOpener_token t.atOrigin |>.trans (isStrayOpener_token t).symm
  | function => rfl
  | block => rfl

theorem atOrigin_ofGroup (opener : Token) (vs : List ComponentValue) :
    (ofGroup opener vs).atOrigin = ofGroup opener.atOrigin (vs.map atOrigin) := by
  unfold ofGroup
  rw [Token.kind_atOrigin, ← allAtOrigin_eq]
  split <;> rfl

end ComponentValue

/-! ### Grouping -/

def OpenGroup.atOrigin (o : OpenGroup) : OpenGroup := ⟨o.opener.atOrigin, o.before.map ComponentValue.atOrigin⟩

namespace Grouping

def atOrigin (g : Grouping) : Grouping := ⟨g.groups.map OpenGroup.atOrigin, g.values.map ComponentValue.atOrigin⟩

theorem closing?_map_atOrigin (os : List OpenGroup) : closing? (os.map OpenGroup.atOrigin) = closing? os := by
  cases os <;> rfl

theorem Takes.atOrigin {t : Token} {g g' : Grouping} (h : Takes t g g') :
    Takes t.atOrigin g.atOrigin g'.atOrigin := by
  cases h with
  | @closes o os vs hcloses =>
    rw [Grouping.atOrigin, Grouping.atOrigin, List.map_cons, List.map_cons, ComponentValue.atOrigin_ofGroup,
      List.map_reverse]
    exact .closes hcloses
  | opens hopens hstays hdepth =>
    exact .opens hopens (by rwa [closing?_map_atOrigin]) (by rwa [List.length_map])
  | alone hstays hdepth =>
    exact .alone (by rwa [closing?_map_atOrigin]) (by rwa [List.length_map])

theorem atOrigin_foldl_step (ts : List Token) (g : Grouping) :
    (ts.foldl step g).atOrigin = (ts.map Token.atOrigin).foldl step g.atOrigin := by
  induction ts generalizing g with
  | nil => rfl
  | cons t ts ih => rw [List.foldl_cons, ih, List.map_cons, List.foldl_cons, (takes_step t g).atOrigin.step_eq]

theorem map_atOrigin_close (os : List OpenGroup) (vs : List ComponentValue) :
    (close os vs).map ComponentValue.atOrigin =
      close (os.map OpenGroup.atOrigin) (vs.map ComponentValue.atOrigin) := by
  induction os generalizing vs with
  | nil => rw [close, List.map_reverse, List.map_nil, close]
  | cons o os ih =>
    rw [close, ih, List.map_cons, List.map_cons, ComponentValue.atOrigin_ofGroup, List.map_reverse]
    rfl

end Grouping

namespace ComponentValue

/-- Which values tokens make does not depend on the places. -/
theorem map_atOrigin_group (ts : List Token) : (group ts).map atOrigin = group (ts.map Token.atOrigin) := by
  have hrun := Grouping.atOrigin_foldl_step ts {}
  rw [group, Grouping.finish, Grouping.map_atOrigin_close]
  exact congrArg Grouping.finish hrun

/-! ### Values on their own -/

theorem Occurs.mono {vs ws : List ComponentValue} {d : Nat} {v : ComponentValue} (h : Occurs vs d v) (hsub : vs ⊆ ws) :
    Occurs ws d v := by
  cases h with
  | here hv => exact .here (hsub hv)
  | inside hu h => exact .inside (hsub hu) h

theorem Occurs.in_content {u v : ComponentValue} {d : Nat} (h : Occurs u.content d v) : Occurs [u] (d + 1) v :=
  .inside (List.mem_singleton_self u) h

namespace Fits

variable {d : Nat} {v : ComponentValue}

theorem atOrigin (h : v.Fits d) : v.atOrigin.Fits d := by
  induction h with
  | token hdepth => exact .token hdepth
  | @group d opener c content hopener hdepth _ hcloser ih =>
    rw [atOrigin_ofGroup]
    refine .group hopener hdepth ?_ fun t ht => ?_
    · simpa using ih
    · obtain ⟨u, hu, heq⟩ := List.mem_map.mp ht
      cases u with
      | token u =>
        obtain rfl := ComponentValue.token.inj heq
        exact hcloser u hu
      | function => cases heq
      | block => cases heq

/-- A value in which no opener stands alone may also stand in fewer groups. -/
theorem of_le (h : v.Fits d) (hstray : ∀ k u, Occurs [v] k u → u.isStrayOpener = false) {n : Nat} (hle : n ≤ d) :
    v.Fits n := by
  induction h generalizing n with
  | @token d t =>
    refine .token fun hopener => ?_
    have hnone := hstray 0 (.token t) (.here (List.mem_singleton_self _))
    rw [isStrayOpener_token] at hnone
    exact absurd hopener (by rw [hnone]; simp)
  | @group d opener c content hopener hdepth _ hcloser ih =>
    refine .group hopener (Nat.lt_of_le_of_lt hle hdepth) (fun u hu => ?_) hcloser
    refine ih u hu (fun k w hw => hstray (k + 1) w ?_) (Nat.succ_le_succ hle)
    refine Occurs.in_content ?_
    rw [content_ofGroup hopener]
    exact hw.mono (by simpa using hu)

end Fits

theorem Occurs.map_atOrigin {vs : List ComponentValue} {d : Nat} {v : ComponentValue} (h : Occurs vs d v) :
    Occurs (vs.map atOrigin) d v.atOrigin := by
  induction h with
  | here hv => exact .here (List.mem_map_of_mem hv)
  | @inside vs u v d hu _ ih => exact .inside (List.mem_map_of_mem hu) (by rwa [u.content_atOrigin])

/-- **Values that stood inside others are made again of tokens of the same kinds, up to places, exactly if no opener
stands alone among them.** -/
theorem map_atOrigin_group_eq_iff {d : Nat} (hd : 0 < d) {vs : List ComponentValue} (hvs : ∀ v ∈ vs, v.Fits d)
    {us : List Token} (hus : us.map Token.kind = (flattenAll vs).map Written.kind) :
    (group us).map atOrigin = vs.map atOrigin ↔ ∀ k u, Occurs vs k u → u.isStrayOpener = false := by
  constructor
  · intro heq k u hu
    -- An opener stands alone at one depth only, but what is made again lies less deep.
    by_contra hstray
    have hdepth := (hu.fits hvs).eq_of_isStrayOpener (by simpa using hstray)
    have hfits : ∀ v ∈ vs.map atOrigin, v.Fits 0 := by
      rw [← heq]
      exact List.forall_mem_map.mpr fun v hv => (fits_group us v hv).atOrigin
    have hagain := (hu.map_atOrigin.fits hfits).eq_of_isStrayOpener (by simpa using hstray)
    omega
  · intro hstray
    have hfits : ∀ v ∈ vs.map atOrigin, v.Fits 0 := by
      refine List.forall_mem_map.mpr fun v hv => ?_
      refine ((hvs v hv).of_le (fun k u hu => hstray k u ?_) (Nat.zero_le d)).atOrigin
      exact hu.mono (by simpa using hv)
    rw [map_atOrigin_group]
    refine group_eq_of_writtenAs hfits ?_
    rw [← allAtOrigin_eq, flattenAll_allAtOrigin, List.forall₂_map_left_iff, List.forall₂_map_right_iff]
    refine List.Forall₂.imp (fun _ _ => Token.writtenAs_atOrigin) ?_
    rwa [← List.forall₂_eq_eq_eq, List.forall₂_map_left_iff, List.forall₂_map_right_iff] at hus

end ComponentValue
end CssSelector
