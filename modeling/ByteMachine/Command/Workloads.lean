/-
The programs that the benchmark command assembles and runs, line by line. Each of them ends by stopping the machine, and
a stopped machine starts over, so a program can be run again and again. The registers are carried over, so each program
sets up its own.
-/

namespace ByteMachine.Command.Workloads

def text (lines : List String) : String := String.join (lines.map (· ++ "\n"))

/-- a counter inside a counter: fifty thousand rounds -/
def tightLoop : List String :=
  ["", "    num c 200", "    .outer", "        num d 250", "        .inner", "            inc a", "            dec d",
    "            jnz %inner", "        dec c", "        jnz %outer", "    hlt"]

/-- two hundred and fifty rounds of arithmetic -/
def arithmeticMix : List String :=
  ["", "    num c 250", "    num a 1", "    num b 2", "    num d 3", "    .loop", "        add a b",
    "        mul a d", "        sub a b", "        shl b d", "        shr a d", "        mov b a", "        inc b",
    "        dec c", "        jnz %loop", "    hlt"]

/-- ten thousand calls of a subroutine that only returns -/
def callOverhead : List String :=
  ["", "    num d 40", "    .outer", "        num c 250", "        .inner", "            clc %noop",
    "            dec c", "            jnz %inner", "        dec d", "        jnz %outer", "    hlt", "", ".noop",
    "    ret"]

/-- ten thousand bytes stored and loaded again -/
def memoryPasses : List String :=
  ["", "    num d 40", "    .pass", "        num a 0", "        num b 0x20", "        .cell", "            mov m a",
    "            ser a b", "            ger a b", "            inc a", "            jnz %cell", "        dec d",
    "        jnz %pass", "    hlt"]

/-- one frame of a game: draw the treasures and the player, collect a treasure, and move as the buttons say -/
def treasureFrame : List String :=
  ["# Treasure hunt for the 16x16 screen.", "#",
    "# Each run clears the screen, draws the remaining treasures in red, collects",
    "# the treasure under the player (if any), draws the player in green and then",
    "# moves the player one cell per pressed direction button.", "#", "# Calling convention:",
    "#   caller saves d and m", "#   callee saves a, b and c",
    "#   arguments go on the stack; the caller drops them with `eat`", "", ".setup", "    jmp %Game.main", "", "",
    "namespace Game", "    namespace Point", "        def draw", "            # args: x y", "            psh c", "",
    "            # c := y * 16", "            ofg c 3", "            num m 16", "            mul c m", "",
    "            # c += x", "            ofg m 4", "            add c m", "", "            num d 0xe0",
    "            num m 1", "            ser c d", "", "            pop c", "            ret", "        namespace pop",
    "    namespace pop", "", "", "    namespace Player", "        .x", "            dat 8", "        .y",
    "            dat 8", "    namespace pop", "", "", "    private namespace Treasure", "        .coordinates",
    "            #   x    y", "            dat 1    3", "            dat 4    5", "            dat 2    7",
    "            dat 14   5", "            dat 10   10", "            dat 8    12", "            dat 5    9",
    "            dat 0xff 0xff", "", "        def collides public", "        use coordinates",
    "        use $.Player.x as x", "        use $.Player.y as y",
    "            # returns: d = index of the treasure under the player, or 0xff", "            psh a",
    "            psh b", "            psh c", "", "            num c 0", "            num a :coordinates",
    "            num b coordinates:", "", "            .loop",
    "                # d := treasure x, stop at the 0xff terminator", "                ger a b",
    "                mov d m", "                inc d", "                jiz %fail", "                dec d", "",
    "                gec %x", "                sub d m", "                inl a b", "                jnz %next", "",
    "                # d := treasure y", "                ger a b", "                mov d m", "",
    "                gec %y", "                sub d m", "                jnz %next", "", "                mov d c",
    "                jmp %ret", "            .next", "                inc c", "                inl a b",
    "                jmp %loop", "", "            .fail", "                num d 0xff", "            .ret",
    "            pop c", "            pop b", "            pop a", "            ret", "        namespace pop", "",
    "        def remove public", "        use coordinates", "            # args: index", "            psh a",
    "            psh b", "            psh c", "", "            # a b := address of the treasure at index",
    "            private namespace", "            use coordinates", "                ofg m 5", "",
    "                num a :coordinates", "                num b coordinates:", "", "                .loop",
    "                    inc m", "                    dec m", "                    jiz %loop_end",
    "                        inl a b", "                        inl a b", "                        dec m",
    "                    jmp %loop", "                .loop_end", "            namespace pop", "",
    "            # shift every following pair down by one, terminator included", "            private namespace",
    "                .loop", "                    mov c a", "                    mov d b",
    "                    inl a b", "                    inl a b", "", "                    ger a b",
    "                    ser c d", "                    inl a b", "", "                    inl c d",
    "                    ger a b", "                    ser c d", "", "                    inc m",
    "                    jiz %loop_end", "                    dec m", "", "                    del a b",
    "                    jmp %loop", "                .loop_end", "            namespace pop", "",
    "            pop c", "            pop b", "            pop a", "            ret", "        namespace pop", "",
    "        def draw public", "        use coordinates", "        use $.Point.draw", "            # clobbers: d m",
    "            psh a", "            psh b", "            psh c", "", "            num a :coordinates",
    "            num b coordinates:", "            .loop", "                ger a b", "                num d 0xff",
    "                sub m d", "                jiz %loop_end", "                add m d", "",
    "                psh m", "                inl a b", "                ger a b", "                psh m", "",
    "                clc %Point.draw", "                eat 2", "", "                inl a b",
    "                jmp %loop", "            .loop_end", "", "            pop c", "            pop b",
    "            pop a", "            ret", "        namespace pop", "    namespace pop", "", "",
    "    namespace Screen", "        def clear", "            psh a", "            psh b", "            psh c", "",
    "            num b 0", "            .by", "                num a 0", "                .ax",
    "                    # c := b * 16 + a", "                    mov c b", "                    num d 16",
    "                    mul c d", "                    add c a", "", "                    num m 0",
    "                    num d 0xe0", "                    ser c d", "", "                    inc a",
    "                    psh a", "                    num d 16", "                    sub a d",
    "                    pop a", "                    jnz %ax", "                inc b", "                psh b",
    "                num d 16", "                sub b d", "                pop b", "                jnz %by", "",
    "            pop c", "            pop b", "            pop a", "            ret", "        namespace pop",
    "    namespace pop", "", "", "    def main public", "    use Player.x as x", "    use Player.y as y",
    "    use Screen.clear", "    use Treasure.draw", "    use Treasure.collides", "    use Treasure.remove",
    "    use Point.draw", "        psh a", "        psh b", "        psh c", "", "        clc %Screen.clear",
    "        clc %Treasure.draw", "", "        private namespace", "        use Treasure.remove",
    "        use Treasure.collides", "            clc %Treasure.collides", "            inc d",
    "            jiz %not_found", "            dec d", "", "            psh d", "            clc %Treasure.remove",
    "            eat 1", "            .not_found", "        namespace pop", "",
    "        # player pixel at x + y * 16", "        gec %x", "        mov a m", "        gec %y", "        num b 16",
    "        mul b m", "        add a b", "", "        num m 2", "        num b 0xe0", "        ser a b", "",
    "        private namespace on_left", "        use x", "            gec 0x00 0xe1", "            add m m",
    "            jiz %skip", "                gec %x", "                dec m", "                jic %skip",
    "                    sec %x", "            .skip", "        namespace pop", "",
    "        private namespace on_right", "        use x", "            gec 0x01 0xe1", "            add m m",
    "            jiz %skip", "                gec %x", "                inc m", "                psh m",
    "                num d 16", "                sub m d", "                pop m", "                jiz %skip",
    "                    sec %x", "            .skip", "        namespace pop", "", "        private namespace on_up",
    "        use y", "            gec 0x02 0xe1", "            add m m", "            jiz %skip",
    "                gec %y", "                dec m", "                jic %skip", "                    sec %y",
    "            .skip", "        namespace pop", "", "        private namespace on_down", "        use y",
    "            gec 0x03 0xe1", "            add m m", "            jiz %skip", "                gec %y",
    "                inc m", "                psh m", "                num d 16", "                sub m d",
    "                pop m", "                jiz %skip", "                    sec %y", "            .skip",
    "        namespace pop", "", "        pop c", "        pop b", "        pop a", "        hlt",
    "    namespace pop", "namespace pop"]

end ByteMachine.Command.Workloads
