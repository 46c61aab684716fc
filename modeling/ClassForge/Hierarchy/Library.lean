import ClassForge.Hierarchy.Provider

namespace ClassForge.Hierarchy

structure ClassText where
  name : String
  super : String
  access : Access
  interfaces : List String
  members : List String

namespace ClassText

def plain : Access := .publicBit ||| .superBit
def sealed : Access := plain ||| .finalBit
def partly : Access := plain ||| .abstractBit
def interface : Access := .publicBit ||| .interfaceBit ||| .abstractBit

def root : String := "java/lang/Object"
def serializable : String := "java/io/Serializable"

/-- A wrapper class. The numeric ones have limits and convert to the other numeric kinds. -/
def wrapper (p : Prim) (super : String) : ClassText :=
  let letter := String.singleton p.letter
  let shared :=
    ["ps valueOf (" ++ letter ++ ")L" ++ p.boxName ++ ";",
     "p " ++ p.name ++ "Value ()" ++ letter,
     "p toString ()Ljava/lang/String;",
     "p equals (Ljava/lang/Object;)Z",
     "p hashCode ()I",
     "ps toString (" ++ letter ++ ")Ljava/lang/String;"]
  let numeric :=
    ["psf MAX_VALUE " ++ letter, "psf MIN_VALUE " ++ letter] ++
      (([.int, .long, .float, .double] : List Prim).filter (· ≠ p)).map fun q =>
        "p " ++ q.name ++ "Value ()" ++ String.singleton q.letter
  { name := p.boxName, super := super, access := sealed,
    interfaces := [serializable, "java/lang/Comparable"],
    members := if super = root then shared else shared ++ numeric }

def throwable (name super : String) : ClassText :=
  ⟨name, super, plain, [], ["p <init> ()V", "p <init> (Ljava/lang/String;)V"]⟩

def core : List ClassText :=
  [⟨root, "", plain, [],
    ["p <init> ()V",
     "p toString ()Ljava/lang/String;",
     "p equals (Ljava/lang/Object;)Z",
     "p hashCode ()I",
     "pf getClass ()Ljava/lang/Class;"]⟩,
   ⟨"java/lang/Class", root, sealed, [serializable], ["p getName ()Ljava/lang/String;"]⟩,
   ⟨serializable, root, interface, [], []⟩,
   ⟨"java/lang/Cloneable", root, interface, [], []⟩,
   ⟨"java/lang/Comparable", root, interface, [], ["p compareTo (Ljava/lang/Object;)I"]⟩,
   ⟨"java/lang/CharSequence", root, interface, [],
    ["p length ()I", "p charAt (I)C", "p toString ()Ljava/lang/String;"]⟩,
   ⟨"java/lang/Runnable", root, interface, [], ["p run ()V"]⟩,
   ⟨"java/lang/String", root, sealed, [serializable, "java/lang/Comparable", "java/lang/CharSequence"],
    ["p <init> ()V",
     "p <init> (Ljava/lang/String;)V",
     "p length ()I",
     "p charAt (I)C",
     "p isEmpty ()Z",
     "p concat (Ljava/lang/String;)Ljava/lang/String;",
     "p equals (Ljava/lang/Object;)Z",
     "p hashCode ()I",
     "p compareTo (Ljava/lang/Object;)I",
     "p toString ()Ljava/lang/String;",
     "p substring (II)Ljava/lang/String;",
     "ps valueOf (Ljava/lang/Object;)Ljava/lang/String;",
     "ps valueOf (Z)Ljava/lang/String;",
     "ps valueOf (C)Ljava/lang/String;",
     "ps valueOf (I)Ljava/lang/String;",
     "ps valueOf (J)Ljava/lang/String;",
     "ps valueOf (F)Ljava/lang/String;",
     "ps valueOf (D)Ljava/lang/String;"]⟩,
   ⟨"java/lang/StringBuilder", root, sealed, [serializable, "java/lang/CharSequence"],
    ["p <init> ()V",
     "p <init> (Ljava/lang/String;)V",
     "p append (Ljava/lang/String;)Ljava/lang/StringBuilder;",
     "p append (Ljava/lang/Object;)Ljava/lang/StringBuilder;",
     "p append (Z)Ljava/lang/StringBuilder;",
     "p append (C)Ljava/lang/StringBuilder;",
     "p append (I)Ljava/lang/StringBuilder;",
     "p append (J)Ljava/lang/StringBuilder;",
     "p append (F)Ljava/lang/StringBuilder;",
     "p append (D)Ljava/lang/StringBuilder;",
     "p length ()I",
     "p charAt (I)C",
     "p toString ()Ljava/lang/String;"]⟩,
   ⟨"java/lang/Number", root, partly, [serializable],
    ["p <init> ()V",
     "pa intValue ()I",
     "pa longValue ()J",
     "pa floatValue ()F",
     "pa doubleValue ()D",
     "p byteValue ()B",
     "p shortValue ()S"]⟩,
   wrapper .int "java/lang/Number",
   wrapper .long "java/lang/Number",
   wrapper .short "java/lang/Number",
   wrapper .byte "java/lang/Number",
   wrapper .float "java/lang/Number",
   wrapper .double "java/lang/Number",
   wrapper .boolean root,
   wrapper .char root,
   ⟨"java/lang/Throwable", root, plain, [serializable],
    ["p <init> ()V",
     "p <init> (Ljava/lang/String;)V",
     "p <init> (Ljava/lang/String;Ljava/lang/Throwable;)V",
     "p getMessage ()Ljava/lang/String;",
     "p getCause ()Ljava/lang/Throwable;",
     "p printStackTrace ()V"]⟩,
   throwable "java/lang/Exception" "java/lang/Throwable",
   throwable "java/lang/Error" "java/lang/Throwable",
   throwable "java/lang/RuntimeException" "java/lang/Exception",
   throwable "java/lang/IllegalArgumentException" "java/lang/RuntimeException",
   throwable "java/lang/IllegalStateException" "java/lang/RuntimeException",
   throwable "java/lang/ArithmeticException" "java/lang/RuntimeException",
   throwable "java/lang/NullPointerException" "java/lang/RuntimeException",
   ⟨"java/lang/System", root, sealed, [],
    ["psf out Ljava/io/PrintStream;",
     "psf err Ljava/io/PrintStream;",
     "ps currentTimeMillis ()J",
     "ps identityHashCode (Ljava/lang/Object;)I"]⟩,
   ⟨"java/lang/Math", root, sealed, [],
    ["ps abs (I)I", "ps abs (J)J", "ps abs (D)D", "ps max (II)I", "ps max (JJ)J", "ps min (II)I",
     "ps min (JJ)J"]⟩,
   ⟨"java/io/PrintStream", root, plain, [],
    ["p println ()V",
     "p println (Z)V",
     "p println (C)V",
     "p println (I)V",
     "p println (J)V",
     "p println (F)V",
     "p println (D)V",
     "p println (Ljava/lang/String;)V",
     "p println (Ljava/lang/Object;)V",
     "p print (Ljava/lang/String;)V",
     "p print (I)V"]⟩,
   ⟨"java/lang/Iterable", root, interface, [], ["p iterator ()Ljava/util/Iterator;"]⟩,
   ⟨"java/util/Iterator", root, interface, [], ["p hasNext ()Z", "p next ()Ljava/lang/Object;"]⟩,
   ⟨"java/util/Collection", root, interface, ["java/lang/Iterable"],
    ["p size ()I", "p isEmpty ()Z", "p add (Ljava/lang/Object;)Z", "p contains (Ljava/lang/Object;)Z"]⟩,
   ⟨"java/util/List", root, interface, ["java/util/Collection"], ["p get (I)Ljava/lang/Object;"]⟩,
   ⟨"java/util/AbstractList", root, partly, ["java/util/List"], ["r <init> ()V"]⟩,
   ⟨"java/util/ArrayList", "java/util/AbstractList", plain,
    ["java/util/List", serializable, "java/lang/Cloneable"],
    ["p <init> ()V",
     "p <init> (I)V",
     "p add (Ljava/lang/Object;)Z",
     "p get (I)Ljava/lang/Object;",
     "p size ()I",
     "p isEmpty ()Z",
     "p contains (Ljava/lang/Object;)Z",
     "p iterator ()Ljava/util/Iterator;"]⟩]

def define (t : ClassText) : Except Fault ClassInfo :=
  ClassInfo.define t.name t.super t.access t.interfaces t.members

end ClassText

def library : Registry :=
  ClassText.core.foldl (fun r t => match t.define with
    | .ok c => r.add c
    | .error _ => r) .empty

end ClassForge.Hierarchy
