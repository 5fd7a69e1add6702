namespace EmbeddedStyles.Text

-- A character outside the basic plane takes a surrogate pair.
def width16 (c : Char) : Nat :=
  if c.toNat < 0x10000 then 1 else 2

def units16 (cs : List Char) : Nat :=
  cs.foldr (fun c units => width16 c + units) 0

def size8 (cs : List Char) : Nat :=
  cs.foldr (fun c bytes => c.utf8Size + bytes) 0

@[simp] theorem units16_nil : units16 [] = 0 := rfl

@[simp] theorem units16_cons (c : Char) (cs : List Char) :
    units16 (c :: cs) = width16 c + units16 cs := rfl

@[simp] theorem units16_append (as bs : List Char) :
    units16 (as ++ bs) = units16 as + units16 bs := by
  induction as with
  | nil => simp
  | cons a as ih => simp [ih, Nat.add_assoc]

@[simp] theorem size8_nil : size8 [] = 0 := rfl

@[simp] theorem size8_cons (c : Char) (cs : List Char) :
    size8 (c :: cs) = c.utf8Size + size8 cs := rfl

@[simp] theorem size8_append (as bs : List Char) :
    size8 (as ++ bs) = size8 as + size8 bs := by
  induction as with
  | nil => simp
  | cons a as ih => simp [ih, Nat.add_assoc]

end EmbeddedStyles.Text
