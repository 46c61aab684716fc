import ClassForge.Text.Table
import Std.Data.HashMap

namespace ClassForge.Text

/-- Rows of a base and a mark each, from blocks that combine every base with every mark. Bases are given by the
distance from the one before, marks by that from `300`. The number after a block goes to its first row,
a second one to the others. -/
def blockRows : List (List Nat) → List (List Nat)
  | bases :: marks :: rest =>
    match marks.flatMap fun m => (sums 0 bases).map fun b => [b, 0x300 + m] with
    | [] => []
    | row :: rows => (row ++ rest.flatten) :: rows.map (· ++ rest.flatten.drop 1)
  | _ => []
where
  sums (n : Nat) : List Nat → List Nat
    | [] => []
    | d :: ds => (n + d) :: sums (n + d) ds

/-- Characters with their canonical decompositions into two. A third number says how many characters are left out before. -/
def pairTable : List (Nat × List Nat) := placeRows (·.getD 2 0) (fun _ => 1) 0 <| tableBlocks.flatMap blockRows
where
  tableBlocks := (tableWords
    ["41-0,1,2,3,8,a-c0 43-27-1 45-0,1,2,8 49-0,1,2,8 4e-3-1 4f-0,1,2,3,8 55-0,1,2,8-2 59-1 61-0,1,2,3,8,a-2 63-27-1",
     "65-0,1,2,8 69-0,1,2,8 6e-3-1 6f-0,1,2,3,8 75-0,1,2,8-2 79-1,8-0-1 41,20-4,6,28 43,20-1,2,7,c 44,20-c",
     "45,20-4,6,7,28,c-2 47,20-2,6,7,27 48,20-2 49,20-3,4,6,28-2 49-7 4a,20-2-3 4b,20-27 4c,20-1,27,c-1",
     "4e,20-1,27,c-4 4f,20-4,6,b-3 52,20-1,27,c-2 53,20-1,2,27,c 54,20-27,c 55,20-3,4,6,a,b,28-2 57,20-2 59,20-2 59-8",
     "5a,20-1,7,c 4f,20-1b-21 55,20-1b-d 41,20-c-1c 49,20-c 4f,20-c 55,20-c dc,20-4,1,c,0 c4,20,142,1-4-1 c6,20-4",
     "47,20-c-2 4b,20-c 4f,20-28 1ea,1-4 1b7,db-c 6a-c 47,20-1-3 4e,20-0-2 c5,20-1 c6,20-1 d8,20-1 41,20-f,11",
     "45,20-f,11 49,20-f,11 4f,20-f,11 52,20-f,11 55,20-f,11 53,20-26 54,20-26 48,20-c-2 41,20-7-6 45,20-27 d6,20-4",
     "d5,20-4 4f,20-7 22e,1-4 59,20-4 308-1-110 a8,2e9-1-40 395,2,2-1-1 39f-1-1 3a5,4,21-1-1 399,c-8-19",
     "3b1,4,2,2,12-1 3b9,c-8-19 3bf,6,4-1 3d2-1,8-4 415-0,8-2b 413-1-1 406-8-3 41a-1-4 418-0 423-6 418-6-a 438-6-1f",
     "435-0,8-16 433-1-1 456-8-3 43a-1-4 438-0 443-6 474,1-f-17 416,20-6-49 410,20-6,8-d 415,20-6-2 4d8,1-8-2",
     "416,20-8 417,20-8 418,20-4,8-2 41e,20-8 4e8,1-8-2 42d,20-8 423,20-4,8,b 427,20-8 42b,20-8-2 627-353-128",
     "627,21-354 627-355 64a-354 6d5-354-99 6c1-354-1 6d2-354-10 928-63c-255 930,3-63c-7-2 915,1,1,5,5,1,9,4-63c-23",
     "9c7-6be,6d7-6b 9a1,1-6bc-f 9af-6bc-1 a32,6-73c-53-2 a16,1,5-73c-22 a2b-73c-2 b47-856-e9 b47-83e,857-2",
     "b21,1-83c-f b92-8d7-36 bc6,1-8be-35 bc6-8d7 c46-956-7b cbf-9d5-77 cc6-9d5,9d6-6 cc6-9c2-1 cca-9d5 d46,1-a3e-7e",
     "d46-a57 dd9-aca,acf-8d-1 ddc-aca dd9-adf f42-cb7-164 f4c,5,5,5-cb7-9-4 f40-cb5-c f71-c72,c74-9-1 fb2,1-c80-0-1",
     "f71-c80-8 f92-cb7-11 f9c,5,5,5-cb7-9-4 f90-cb5-c 1025-d2e-6c 1b05,2,2,2,2-1835-adf-1 1b11-1835-3",
     "1b3a,2-1835-28-1 1b3e,1-1835-2 1b42-1835-1 41,20-25-2bc 42,20-7,23,31 c7,20-1 44,20-7,23,31,27,2d 112,1-0,1",
     "45,20-2d,30 228,1-6 46,20-7 47,20-4 48,20-7,23,8,27,2e 49,20-30 cf,20-1 4b,20-1,23,31 4c,20-23 1e36,1-4",
     "4c,20-31,2d 4d,20-1,7,23 4e,20-7,23,31,2d d5,20-1,8 14c,1-0,1 50,20-1,7 52,20-7,23 1e5a,1-4 52,20-31 53,20-7,23",
     "15a,1,5,1,1d01,1-7 54,20-7,23,31,2d 55,20-24,30,2d 168,1-1 16a,1-8 56,20-3,23 57,20-0,1,8,7,23 58,20-7,8",
     "59,20-7 5a,20-2,23,31 68-31 74-8 77,2-a 17f-7-1 41,20-23,9-4 c2,20-1,0,9,3 1ea0,1-2 102,1-1,0,9,3 1ea0,1-6",
     "45,20-23,9,3 ca,20-1,0,9,3 1eb8,1-2 49,20-9,23 4f,20-23,9 d4,20-1,0,9,3 1ecc,1-2 1a0,1-1,0,9,3,23 55,20-23,9",
     "1af,1-1,0,9,3,23 59,20-0,23,9,3 3b1-13,14-6 1f00,1-0,1,42 391-13,14 1f08,1-0,1,42 3b5-13,14 1f10,1-0,1",
     "395-13,14-2 1f18,1-0,1 3b7-13,14-2 1f20,1-0,1,42 397-13,14 1f28,1-0,1,42 3b9-13,14 1f30,1-0,1,42 399-13,14",
     "1f38,1-0,1,42 3bf-13,14 1f40,1-0,1 39f-13,14-2 1f48,1-0,1 3c5-13,14-2 1f50,1-0,1,42 3a5-14-1 1f59-0,1,42-1-1",
     "3c9-13,14 1f60,1-0,1,42 3a9-13,14 1f68,1-0,1,42 3b1,4,2,2,6,6,4-0-0-1 1f00,1,1,1,1,1,1,1,1,1,1,1,1,1,1,1-45-3",
     "1f20,1,1,1,1,1,1,1,1,1,1,1,1,1,1,1,31,1,1,1,1,1,1,1,1,1,1,1,1,1,1,1-45 3b1-6,4 1f70-45 3b1-45 3ac-45 3b1-42-1",
     "1fb6-45 391-6,4,0 391-45-1 a8-42-4 1f74-45 3b7-45 3ae-45 3b7-42-1 1fc6-45 395-0 397-0,45-1-1 1fbf-0,1,42",
     "3b9-6,4 3ca-0 3b9,11-42-3 399-6,4,0 1ffe-0,1,42-2 3c5-6,4 3cb-0 3c1-13,14-1 3c5,6-42 3a5-6,4,0 3a1-14-1 a8-0",
     "1f7c-45-4 3c9,5-45 3c9-42-1 1ff6-45 39f-0 3a9-0,45-1-1 2190,2-38-19d 2194-38-12 21d0,4-38-1e 21d2-38 2203-38-34",
     "2208,3-38-4-2 2223,2-38-17-1 223c,7,2-38-1a-2 2248-38-1 3d,2224-38-16-1 224d-38-a 3c,2,2226,1-38 2272,1-38-2",
     "2276,1-38-2 227a,1-38-6 2282,1-38-2 2286,1-38-2 22a2,6,1,2-38-22 227c,1,14,1-38-30 22b2,1,1,1-38-6 2add-38-7ee",
     "304b,2,2,2,2,2,2,2,2,2,2,2-2d99-56f-1 3064,2,2-2d99-2-1 306f-2d99,2d9a-6 3072-2d99,2d9a-1 3075-2d99,2d9a-1",
     "3078-2d99,2d9a-1 307b-2d99,2d9a-1 3046-2d99-16 309d-2d99-9 30ab,2,2,2,2,2,2,2,2,2,2,2-2d99-d-1",
     "30c4,2,2-2d99-2-1 30cf-2d99,2d9a-6 30d2-2d99,2d9a-1 30d5-2d99,2d9a-1 30d8-2d99,2d9a-1 30db-2d99,2d9a-1",
     "30a6-2d99-16 30ef,1,1,1-2d99-2 30fd-2d99-3 5d9-2b4-ca1e 5f2-2b7-1 5e9-2c1,2c2-a fb49-2c1,2c2 5d0-2b7,2b8",
     "5d0,1,1,1,1,1,1-2bc 5d8,1,1,1,1-2bc-1 5de-2bc-1 5e0,1-2bc-1 5e3,1-2bc-1 5e6,1,1,1,1-2bc-1 5d5-2b9 5d1,a,9-2bf",
     "11099,2-10dba-154b-1 110a5-10dba-e 11131,1-10e27-82 11347-1103e,11057-21b 114b9-111ba,111b0-16e 114b9-111bd-1",
     "115b8,1-112af-fb 11935-11630-37c 1d157,1-1ce65-b825 1d15f-1ce6e,1ce6f,1ce70,1ce71,1ce72 1d1b9,1-1ce65-56",
     "1d1bb,1-1ce6e,1ce6f"]).map fun w => (splitAt '-' w).map fun part => (splitAt ',' part).map hexNumber

/-- Characters with the one that each stands for. In the first rows, a second number says how many characters are left
out before. -/
def singleTable : List (Nat × List Nat) := (placeRows (·.getD 1 0) (fun _ => 1) 0 <| tableRows
  ["300-340 301 313-1 2b9-30 3b-9 b7-8 3ac-1be9 3ad-1 3ae-1 3af-1 3cc-1 3cd-1 3ce-1 386-3d 3b9-2 388-a 389-1 390-7 38a-7",
   "3b0-7 38e-7 385-2 60 38c-9 38f-1 b4-1 2002-2 2003 3a9-124 4b-3 c5 3008-1fd 3009"]) ++ ideographs.flatMap fun (first, text) => (text.toList.zipIdx first).map fun (c, n) => (n, [c.toNat])
where
  ideographs : List (Nat × String) :=
    [(0xf900, "豈更車賈滑串句龜龜契金喇奈懶癩羅蘿螺裸邏樂洛烙珞落酪駱亂卵欄爛蘭鸞嵐濫藍襤拉臘蠟廊朗浪狼郎來冷勞擄櫓爐盧老蘆虜路露魯鷺碌祿綠菉錄鹿論壟弄籠聾牢磊"),
     (0xf948, "賂雷壘屢樓淚漏累縷陋勒肋凜凌稜綾菱陵讀拏樂諾丹寧怒率異北磻便復不泌數索參塞省葉說殺辰沈拾若掠略亮兩凉梁糧良諒量勵呂女廬旅濾礪閭驪麗黎力曆歷轢年憐"),
     (0xf990, "戀撚漣煉璉秊練聯輦蓮連鍊列劣咽烈裂說廉念捻殮簾獵令囹寧嶺怜玲瑩羚聆鈴零靈領例禮醴隸惡了僚寮尿料樂燎療蓼遼龍暈阮劉杻柳流溜琉留硫紐類六戮陸倫崙淪輪"),
     (0xf9d8, "律慄栗率隆利吏履易李梨泥理痢罹裏裡里離匿溺吝燐璘藺隣鱗麟林淋臨立笠粒狀炙識什茶刺切度拓糖宅洞暴輻行降見廓兀嗀"), (0xfa10, "塚"), (0xfa12, "晴"),
     (0xfa15, "凞猪益礼神祥福靖精羽"), (0xfa20, "蘒"), (0xfa22, "諸"), (0xfa25, "逸都"),
     (0xfa2a, "飯飼館鶴郞隷侮僧免勉勤卑喝嘆器塀墨層屮悔慨憎懲敏既暑梅海渚漢煮爫琢碑社祉祈祐祖祝禍禎穀突節練縉繁署者臭艹艹著褐視謁謹賓贈辶逸難響頻恵𤋮舘"),
     (0xfa70, "並况全侀充冀勇勺喝啕喙嗢塚墳奄奔婢嬨廒廙彩徭惘慎愈憎慠懲戴揄搜摒敖晴朗望杖歹殺流滛滋漢瀞煮瞧爵犯猪瑱甆画瘝瘟益盛直睊着磌窱節类絛練缾者荒華蝹襁覆"),
     (0xfab8, "視調諸請謁諾諭謹變贈輸遲醙鉶陼難靖韛響頋頻鬒龜𢡊𢡄𣏕㮝䀘䀹𥉉𥳐𧻓齃龎"),
     (0x2f800, "丽丸乁𠄢你侮侻倂偺備僧像㒞𠘺免兔兤具𠔜㒹內再𠕋冗冤仌冬况𩇟凵刃㓟刻剆割剷㔕勇勉勤勺包匆北卉卑博即卽卿卿卿𠨬灰及叟𠭣叫叱吆咞吸呈周咢哶唐啓啣善善喙"),
     (0x2f848, "喫喳嗂圖嘆圗噑噴切壮城埴堍型堲報墬𡓤売壷夆多夢奢𡚨𡛪姬娛娧姘婦㛮㛼嬈嬾嬾𡧈寃寘寧寳𡬘寿将当尢㞁屠屮峀岍𡷤嵃𡷦嵮嵫嵼巡巢㠯巽帨帽幩㡢𢆃㡼庰庳庶廊𪎒"),
     (0x2f890, "廾𢌱𢌱舁弢弢㣇𣊸𦇚形彫㣣徚忍志忹悁㤺㤜悔𢛔惇慈慌慎慌慺憎憲憤憯懞懲懶成戛扝抱拔捐𢬌挽拼捨掃揤𢯱搢揅掩㨮摩摾撝摷㩬敏敬𣀊旣書晉㬙暑㬈㫤冒冕最暜肭䏙"),
     (0x2f8d8, "朗望朡杞杓𣏃㭉柺枅桒梅𣑭梎栟椔㮝楂榣槪檨𣚣櫛㰘次𣢧歔㱎歲殟殺殻𣪍𡴋𣫺汎𣲼沿泍汧洖派海流浩浸涅𣴞洴港湮㴳滋滇𣻑淹潮𣽞𣾎濆瀹瀞瀛㶖灊災灷炭𠔥煅𤉣熜𤎫"),
     (0x2f920, "爨爵牐𤘈犀犕𤜵𤠔獺王㺬玥㺸㺸瑇瑜瑱璅瓊㼛甤𤰶甾𤲒異𢆟瘐𤾡𤾸𥁄㿼䀈直𥃳𥃲𥄙𥄳眞真真睊䀹瞋䁆䂖𥐝硎碌磌䃣𥘦祖𥚚𥛅福秫䄯穀穊穏𥥼𥪧𥪧竮䈂𥮫篆築䈧𥲀糒䊠"),
     (0x2f968, "糨糣紀𥾆絣䌁緇縂繅䌴𦈨𦉇䍙𦋙罺𦌾羕翺者𦓚𦔣聠𦖨聰𣍟䏕育脃䐋脾媵𦞧𦞵𣎓𣎜舁舄辞䑫芑芋芝劳花芳芽苦𦬼若茝荣莭茣莽菧著荓菊菌菜𦰶𦵫𦳕䔫蓱蓳蔖𧏊蕤𦼬䕝䕡"),
     (0x2f9b0, "𦾱𧃒䕫虐虜虧虩蚩蚈蜎蛢蝹蜨蝫螆䗗蟡蠁䗹衠衣𧙧裗裞䘵裺㒻𧢮𧥦䚾䛇誠諭變豕𧲨貫賁贛起𧼯𠠄跋趼跰𠣞軔輸𨗒𨗭邔郱鄑𨜮鄛鈸鋗鋘鉼鏹鐕𨯺開䦕閷𨵷䧦雃嶲霣𩅅𩈚"),
     (0x2f9f8, "䩮䩶韠𩐊䪲𩒖頋頋頩𩖶飢䬳餩馧駂駾䯎𩬰鬒鱀鳽䳎䳭鵧𪃎䳸𪄅𪈎𪊑麻䵖黹黾鼅鼏鼖鼻𪘀")]

/-- The combining classes that are not 0, each with the length of the run that has it and how many characters are left
out before. -/
def combiningTable : List (Nat × List Nat) := placeRows (·.getD 2 0) (·.getD 1 1) 0 <| tableRows
  ["e6-15-300 e8 dc-4 e8 d8 dc-5 ca-2 dc-4 ca-2 dc-b 1-5 dc-4 e6-8 f0 e6 dc-3 e6-3 dc-2 e6-3-1 dc-4 e6 e8 dc-2 e6 e9",
   "ea-2 e9 ea-2 e9 e6-d e6-5-113 dc-1-109 e6-4 dc e6-3 de dc e6-6 dc-6 e6-2 dc e6-2 de e4 e6 a b c d e f 10 11 12",
   "13-2 14 15 16 17-1-1 18-1-1 19 e6-1-1 dc 12-1-1 e6-8-48 1e 1f 20 1b-1-30 1c 1d 1e 1f 20 21 22 e6-2 dc-2 e6-5 dc",
   "e6-2 dc 23-1-10 e6-7-65 e6-4-2 dc e6 e6-2-2 dc-1-1 e6-2 dc 24-1-23 e6-1-1e dc e6-2 dc e6-2 dc-3 e6 dc-2 e6 dc e6-3",
   "dc e6 dc e6 dc e6 dc e6-2 e6-7-a0 dc e6 dc-1-9 e6-4-18 e6-9-1 e6-3-1 e6-5-1 dc-3-2b e6-1-3c dc-3 e6-4 e6-5-2a dc-5",
   "e6-e dc-1-1 e6-2 dc e6-2 dc e6-3 dc-3 1b 1c 1d e6-3 dc e6-2 dc-2 e6-5 7-1-3c 9-1-10 e6-1-3 dc e6-2 7-1-67 9-1-10",
   "e6-1-30 7-1-3d 9-1-10 7-1-6e 9-1-10 7-1-6e 9-1-10 9-1-7f 7-1-6e 9-1-10 54-1-7 5b 7-1-65 9-1-10 9-2-6d 9-1-10",
   "9-1-7c 67-2-6d 9 6b-4-d 76-2-6c 9 7a-4-d dc-2-4c dc-1-1b dc-1-1 d8-1-1 81-1-37 82 84-1-1 82-4-5 82-1-2 e6-2-1 9",
   "e6-2-1 dc-1-3e 7-1-70 9-2-1 dc-1-52 e6-3-2cf 9-2-3b4 9-1-1e 9-1-9d e6-1-a e4-1-cb de-1-8f e6 dc e6-1-db dc 9-1-47",
   "e6-8-14 dc-1-2 e6-5-30 dc-6 e6-2 dc dc-2-1 e6-2 dc-2 e6-5 dc e6-4 7-1-65 9-1-f e6-1-26 dc e6-7 9-2-36 7-1-3a 9-2-b",
   "7-1-43 e6-3-98 1-1-1 dc-5 e6-2 dc-4 e6 1-7-1 dc-1-4 e6-1-6 e6-2-3 e6-2-c6 dc e6-7 dc e6-2 ea d6 dc ca e6-25 e8",
   "e4-2 dc da e6 e9 dc e6 dc e6-2-2d0 1-2 e6-4 1-3 e6-2 e6-1-4 1-2-3 e6 dc e6 1-2 dc-4 e6 e6-3-bfe 9-1-8d e6-20-60",
   "da-1-22a e4 e8 de e0-2 8-2-69 e6-1-75d4 e6-a-4 e6-2-20 e6-2-50 9-1-114 9-1-25 9-1-97 e6-12-1b dc-3-39 9-1-25",
   "7-1-5f 9-1-c e6-1-ef e6-2-1 dc e6-2-2 e6-2-5 e6-1-1 9-1-34 9-1-f6 1a-1-4f30 e6-7-301 dc-7 e6-2 dc-1-3cd dc-1-e2",
   "e6-5-95 dc-1-692 e6-1-1 e6-1-28 1 dc 9-1-4 e6-1-a5 dc e6-4-23d e6-2-183 dc-3-50 dc-2-46 e6-3 dc e6 dc-4 e6-1-31 dc",
   "e6 dc 9-1-c0 9-1-29 9-1-e 9-1-39 7 e6-3-45 9-2-30 7-1-3e 9-1-4c 7-1-9 9-1-6a 7 7-1-b2 9 7-2-50 9-1-10 e6-7-18",
   "e6-5-3 9-1-cd 7-1-3 e6-1-17 9-1-63 7 9-1-fb 7 9-1-7e 9-1-76 7 9-1-73 9-1-10d 7 9-2-102 7-1-4 9-1-9c 9-1-53 9-1-12",
   "9-1-51 9-1-1a5 7-1-102 9-2-1 9-1-51 9-2-1a9 1-5-4bad e6-7-3b 6-2-4b9 1-1-4cac d8-2-14c6 1-3 e2-1-3 d8-5 dc-8-8",
   "e6-5-2 dc-2 e6-4-1e e6-3-94 e6-7-dbb e6-11-1 e6-7-2 e6-2-1 e6-5-1 e6-1-64 e6-7-a0 e6-1-177 e6-4-3d e8-2-1fc dc e6",
   "dc-7-3e0 e6-6-6d 7"]

def uncomposedRanges : CharRanges := .ofTable
  ["344 613 0 0 0 0 0 0 0 7c 0 1 53 2 22 0 0 2 fd 0 3e5 9 4 4 4 c 9 1 0 1 8 11 9 4 4 4 c 1b22 d040 1 a 0 0 0 0 0 0 0 0",
   "0 0 0 0 1 0 0 0 0 1 1 0 1 0 1 0 0 0 0 0 0 0 0 d60f 0 0 0 0 0 0 56 0 0 0 0 0"]

def decompositions : Std.HashMap Nat (List Nat) :=
  let pairs := pairTable.foldl (fun m (c, row) => m.insert c (row.take 2)) {}
  singleTable.foldl (fun m (c, row) => m.insert c (row.take 1)) pairs

def combiningClasses : Std.HashMap Nat Nat :=
  combiningTable.foldl (fun m (first, row) =>
    (List.range (row.getD 1 1)).foldl (fun m i => m.insert (first + i) (row.headD 0)) m) {}

def compositions : Std.HashMap (Nat × Nat) Nat :=
  pairTable.foldl (fun m (c, row) =>
    if uncomposedRanges.contains c then m else m.insert (row.headD 0, row.getD 1 0) c) {}

end ClassForge.Text
